import IsarPlus.Sqlite.Watchers
import IsarPlus.Core.Notification

/-!
# Which watchers the update hook reaches

The hook registers what it is told under the collection that installed it. In runs whose calls
leave no foreign hook in place and change no watched row in silence, a commit notifies exactly the
watchers of the rows that were changed.
-/

namespace IsarPlus

variable {Q R : Type}

/-! ## Registrations before the transaction -/

/-- The calls that register and stop watchers. -/
def WatchCall.registers {O : Type} : WatchCall Q O → Bool
  | .watch _ | .watchObject _ _ | .watchQuery _ _ | .watchDetailed _ | .stop _ _ => true
  | .registerChange _ _ _ | .registerAll _ | .recordDetailed _ _ => false

namespace Watching

/-- Watchers come and go; their ids do not run out. -/
def Registers (s : Watching Q) (call : WatchCall Q Unit) (s' : Watching Q) : Prop :=
  call.registers = true ∧ s.Covers call ∧ s' = s.step (fun _ _ _ => true) call

theorem distinct_registered {n : Nat} {calls : List (WatchCall Q Unit)} {s : Watching Q}
    (run : Run Registers (start n) calls s) : s.Distinct := by
  apply run.invariant _ (distinct_start n)
  intro s call s' distinct one
  obtain ⟨-, covers, rfl⟩ := one
  exact distinct_step distinct covers

/-- Every list of collection or object watchers is registered as a whole or not at all. -/
def Whole (s : Watching Q) : Prop :=
  ∀ c l, l ≠ .query → (∀ w ∈ s.list c l, s.changeSet.Registered w) ∨
    ∀ w ∈ s.list c l, ¬ s.changeSet.Registered w

theorem gapless_of_unregistered {cs : ChangeSet} {ws : List Watcher}
    (none : ∀ w ∈ ws, ¬ cs.Registered w) : cs.Gapless ws := by
  induction ws with
  | nil => trivial
  | cons w ws ih =>
    refine ⟨fun registered => absurd registered (none w List.mem_cons_self), ih ?_⟩
    exact fun w' mem => none w' (List.mem_cons_of_mem _ mem)

theorem Whole.gapless {s : Watching Q} (whole : s.Whole) (c : Nat) {l : WatchList}
    (simple : l ≠ .query) : s.changeSet.Gapless (s.list c l) :=
  (whole c l simple).elim ChangeSet.gapless_of_registered gapless_of_unregistered

end Watching

namespace Sqlite
open Watching

/-! ## What the hook registers -/

/-- The watchers of a list look at the changed row. -/
def RowChange.Concerns (change : RowChange) : WatchList → Prop
  | .all | .query => True
  | .object id => change.id.toUInt64 = id

namespace WatchedTxn

theorem list_record (s : Watching Q) (collection : Nat)
    (change : ChangeSet → RawCollectionWatchers Q → ChangeSet) :
    (s.record collection change).list = s.list := by
  unfold Watching.record
  split <;> rfl

theorem list_callHook (hook : Option Nat) (s : Watching Q) (change : RowChange) :
    (callHook hook s change).list = s.list := by
  unfold callHook
  split
  · split
    · exact list_record s _ _
    · rfl
  · rfl

/-- A list that a change concerns holds the watchers that the change has to notify. -/
theorem due_iff {s : Watching Q} {collection : Nat} {change : RowChange} {w : Watcher} :
    s.Due (fun _ _ _ => true) (.registerChange collection change.id ()) w ↔
      ∃ l, change.Concerns l ∧ w ∈ s.list collection l := by
  have queries : (∃ cw ∈ s.collections[collection]?, ∃ q, (q, w) ∈ cw.queryWatchers ∧
      (fun (_ : Q) (_ : Int64) (_ : Unit) => true) q change.id () = true) ↔
        w ∈ s.list collection .query := by
    unfold Watching.list
    cases found : s.collections[collection]? with
    | none => simp
    | some cw => simp [RawCollectionWatchers.list]
  show _ ∨ _ ∨ (∃ cw ∈ s.collections[collection]?, ∃ q, (q, w) ∈ cw.queryWatchers ∧ _) ↔ _
  rw [queries]
  constructor
  · intro due
    rcases due with all | object | query
    · exact ⟨.all, trivial, all⟩
    · exact ⟨.object change.id.toUInt64, rfl, object⟩
    · exact ⟨.query, trivial, query⟩
  · intro h
    obtain ⟨l, concerns, mem⟩ := h
    cases l with
    | all => exact Or.inl mem
    | object id => exact Or.inr (Or.inl (concerns ▸ mem))
    | query => exact Or.inr (Or.inr mem)

/-- One call of the hook: it registers the lists of its own collection that the change concerns. -/
theorem registered_callHook {s : Watching Q} (distinct : s.Distinct) (whole : s.Whole)
    (hook : Option Nat) (change : RowChange) {c : Nat} {l : WatchList} {w : Watcher}
    (mem : w ∈ s.list c l) :
    (callHook hook s change).changeSet.Registered w ↔ s.changeSet.Registered w ∨
      hook = some c ∧ change.reported = true ∧ change.Concerns l := by
  cases hook with
  | none => simp [callHook]
  | some collection =>
    by_cases reported : change.reported = true
    · have covers : s.Covers (.registerChange collection change.id ()) :=
        ⟨whole.gapless _ (by simp), whole.gapless _ (by simp)⟩
      have step : (s.step (fun _ _ _ => true) _).changeSet.Registered w ↔ _ :=
        registered_step distinct covers w
      rw [due_iff] at step
      have hooked : callHook (some collection) s change =
          s.step (fun _ _ _ => true) (.registerChange collection change.id ()) := by
        simp [callHook, reported, Watching.step]
      rw [hooked, step]
      apply or_congr_right
      constructor
      · intro h
        obtain ⟨l', concerns, mem'⟩ := h
        obtain ⟨rfl, rfl⟩ := distinct.apart mem mem'
        exact ⟨rfl, reported, concerns⟩
      · intro h
        obtain ⟨same, -, concerns⟩ := h
        cases same
        exact ⟨l, concerns, mem⟩
    · simp [callHook, reported]

theorem distinct_callHook {s : Watching Q} (distinct : s.Distinct) (hook : Option Nat)
    (change : RowChange) : (callHook hook s change).Distinct := by
  unfold callHook
  split
  · split
    · apply distinct.record
      intro cs cw keyed
      exact ChangeSet.registerChange_induction ChangeSet.keyed_insert keyed cw change.id ()
    · exact distinct
  · exact distinct

theorem whole_callHook {s : Watching Q} (distinct : s.Distinct) (whole : s.Whole)
    (hook : Option Nat) (change : RowChange) : (callHook hook s change).Whole := by
  intro c l simple
  rw [list_callHook]
  by_cases told : hook = some c ∧ change.reported = true ∧ change.Concerns l
  · refine Or.inl fun w mem => ?_
    exact (registered_callHook distinct whole hook change mem).mpr (Or.inr told)
  · refine (whole c l simple).imp ?_ ?_
    · intro registered w mem
      exact (registered_callHook distinct whole hook change mem).mpr (Or.inl (registered w mem))
    · intro unregistered w mem registered
      rcases (registered_callHook distinct whole hook change mem).mp registered with before | now
      · exact unregistered w mem before
      · exact told now

/-- The calls of the hook during one statement. -/
theorem registered_foldl_callHook {s : Watching Q} (distinct : s.Distinct) (whole : s.Whole)
    (hook : Option Nat) (changes : List RowChange) :
    (changes.foldl (callHook hook) s).Distinct ∧ (changes.foldl (callHook hook) s).list = s.list ∧
    ∀ {c l w}, w ∈ s.list c l → ((changes.foldl (callHook hook) s).changeSet.Registered w ↔
      s.changeSet.Registered w ∨
        hook = some c ∧ ∃ change ∈ changes, change.reported = true ∧ change.Concerns l) := by
  induction changes generalizing s with
  | nil => exact ⟨distinct, rfl, by simp⟩
  | cons change changes ih =>
    obtain ⟨distinct', same, registered⟩ := ih (distinct_callHook distinct hook change)
      (whole_callHook distinct whole hook change)
    rw [list_callHook] at same registered
    refine ⟨distinct', same, fun {c l w} mem => ?_⟩
    rw [List.foldl_cons, registered mem, registered_callHook distinct whole hook change mem]
    simp only [List.exists_mem_cons_iff, or_assoc]
    tauto

/-! ## What a call changes -/

end WatchedTxn

/-- The collection that a call is about. -/
def WatchedCall.collection : WatchedCall R → Nat
  | .insert collectionIndex _ _ | .update collectionIndex _ _ _ | .delete collectionIndex _ _
  | .clear collectionIndex _ => collectionIndex.toNat
  | .queryUpdate query _ _ _ _ | .queryDelete query _ _ _ => query.collectionIndex.toNat

/-- What the statements of a call make of the table; none where they fail. -/
def WatchedCall.result (unique : Nat → R → R → Bool) (call : WatchedCall R) (table : TableRows R) :
    Option (TableRows R × List RowChange) :=
  match call with
  | .insert _ rows _ => some (table.insertRows (unique call.collection) rows)
  | .update collectionIndex id set _ =>
    (SQLiteQuery.ofId collectionIndex id).update (unique call.collection) table none none set
  | .delete collectionIndex id _ =>
    some ((SQLiteQuery.ofId collectionIndex id).delete table none none)
  | .queryUpdate query offset limit set _ =>
    query.update (unique call.collection) table offset limit set
  | .queryDelete query offset limit _ => some (query.delete table offset limit)
  | .clear collectionIndex _ => some ((SQLiteQuery.all collectionIndex).delete table none none)

namespace WatchedTxn

/-- The rows that a call changes. -/
def changes (unique : Nat → R → R → Bool) (s : WatchedTxn Q R) (call : WatchedCall R) :
    List RowChange :=
  (s.tables[call.collection]?.bind fun table => call.result unique table).elim [] Prod.snd

/-- The collection has watchers, and installs its own hook. -/
def Watched (s : WatchedTxn Q R) (c : Nat) : Prop :=
  ∃ cw ∈ s.watching.collections[c]?, (cw.hasWatchers || cw.hasDetailedWatchers) = true

/-- Rows of the collection that the watchers of the list look at were changed before. -/
def Due (s : WatchedTxn Q R) (c : Nat) (l : WatchList) : Prop :=
  ∃ change, (c, change) ∈ s.changed ∧ change.Concerns l

/-- The hook reaches the right watchers: if it stays from an insert into another collection, no
row of the call has the id of an object watched there, and no watched row changes in silence. -/
structure Heard (unique : Nat → R → R → Bool) (s : WatchedTxn Q R) (call : WatchedCall R) :
    Prop where
  own : s.Watched call.collection ∨ ∀ c, s.hook = some c → ∀ l ≠ .query,
    ∀ change ∈ s.changes unique call, change.reported = true → change.Concerns l →
      s.watching.list c l = [] ∨ s.Due c l
  reported : ∀ l ≠ .query, ∀ change ∈ s.changes unique call, change.Concerns l →
    s.watching.list call.collection l = [] ∨ s.Due call.collection l ∨
      ∃ change' ∈ s.changes unique call, change'.reported = true ∧ change'.Concerns l

/-- The watchers of a list are registered if the rows they look at were changed. -/
structure Told (s : WatchedTxn Q R) : Prop where
  distinct : s.watching.Distinct
  told : ∀ {c l w}, l ≠ .query → w ∈ s.watching.list c l →
    (s.watching.changeSet.Registered w ↔ s.Due c l)

theorem Told.whole {s : WatchedTxn Q R} (told : s.Told) : s.watching.Whole := by
  intro c l simple
  by_cases due : s.Due c l
  · exact Or.inl fun w mem => (told.told simple mem).mpr due
  · exact Or.inr fun w mem registered => due ((told.told simple mem).mp registered)

/-- Recording what concerns detailed watchers only. -/
theorem Told.record {s s' : WatchedTxn Q R} (told : s.Told) {c : Nat}
    {change : ChangeSet → RawCollectionWatchers Q → ChangeSet}
    (watching : s'.watching = s.watching.record c change)
    (changed : s'.changed = s.changed)
    (keeps : ∀ cs cw, (change cs cw).changes = cs.changes) : s'.Told := by
  have registered : ∀ w, s'.watching.changeSet.Registered w ↔ s.watching.changeSet.Registered w := by
    intro w
    rw [watching]
    unfold Watching.record
    split
    · rw [ChangeSet.Registered, ChangeSet.Registered, keeps]
    · rfl
  have lists : s'.watching.list = s.watching.list := by
    rw [watching, list_record]
  constructor
  · rw [watching]
    apply told.distinct.record
    intro cs cw keyed
    rwa [ChangeSet.Keyed, keeps]
  · intro c l w simple mem
    rw [registered, told.told simple (lists ▸ mem), Due, Due, changed]

theorem changes_registerDetailed (cs : ChangeSet) (cw : RawCollectionWatchers Q) :
    (cs.registerDetailedChangesForWatchers cw).changes = cs.changes := by
  refine List.foldlRecOn (motive := fun cs' : ChangeSet => cs'.changes = cs.changes) _ _ rfl ?_
  intro cs' same watcher _
  unfold ChangeSet.addDetailedWatcher
  split <;> exact same

theorem Told.monitorChanges {s : WatchedTxn Q R} (told : s.Told) (c : Nat) :
    (s.monitorChanges c).Told := by
  unfold WatchedTxn.monitorChanges
  split
  · split
    · exact told.record rfl rfl changes_registerDetailed
    · exact told
  · exact told

theorem Told.recordDetails {s : WatchedTxn Q R} (told : s.Told) (c : Nat)
    (details : List ChangeDetail) : (s.recordDetails c details).Told := by
  have watching : (s.recordDetails c details).watching = s.watching.record c fun cs cw =>
      if cw.hasDetailedWatchers then details.foldl ChangeSet.registerDetailedChange cs else cs :=
    rfl
  apply told.record watching rfl
  intro cs cw
  split
  · refine List.foldlRecOn (motive := fun cs' : ChangeSet => cs'.changes = cs.changes) _ _ rfl ?_
    intro cs' same detail _
    exact same
  · rfl

theorem list_monitorChanges (s : WatchedTxn Q R) (c : Nat) :
    (s.monitorChanges c).watching.list = s.watching.list := by
  unfold monitorChanges
  split
  · split
    · exact list_record s.watching c _
    · rfl
  · rfl

@[simp] theorem changed_monitorChanges (s : WatchedTxn Q R) (c : Nat) :
    (s.monitorChanges c).changed = s.changed := by
  unfold monitorChanges
  split
  · split <;> rfl
  · rfl

theorem hook_of_watched {s : WatchedTxn Q R} {c : Nat} (watched : s.Watched c) :
    (s.monitorChanges c).hook = some c := by
  obtain ⟨cw, found, any⟩ := watched
  unfold monitorChanges
  rw [found]
  simp [any]

/-- A collection without watchers leaves the hook of another one in place. -/
theorem hook_of_not_watched {s : WatchedTxn Q R} {c : Nat} (unwatched : ¬ s.Watched c) :
    (s.monitorChanges c).hook = s.hook ∧ ∀ l w, w ∉ s.watching.list c l := by
  unfold monitorChanges Watching.list
  cases found : s.watching.collections[c]? with
  | none => exact ⟨rfl, by simp⟩
  | some cw =>
    have none : (cw.hasWatchers || cw.hasDetailedWatchers) = false :=
      Bool.eq_false_iff.mpr fun any => unwatched ⟨cw, found, any⟩
    refine ⟨by simp [none], fun l w mem => ?_⟩
    simp only [RawCollectionWatchers.hasWatchers, Bool.or_eq_false_iff, Bool.not_eq_false',
      List.isEmpty_iff] at none
    obtain ⟨⟨⟨all, objects⟩, queries⟩, -⟩ := none
    cases l with
    | all => simp [RawCollectionWatchers.list, all] at mem
    | object id =>
      obtain ⟨entry, stored, -⟩ := RawCollectionWatchers.exists_objectWatchers mem
      simp [objects] at stored
    | query => simp [RawCollectionWatchers.list, queries] at mem

/-- The statements of a call reach the watchers of the rows that they change. -/
theorem Told.execute {unique : Nat → R → R → Bool} {s : WatchedTxn Q R} (told : s.Told)
    {call : WatchedCall R} (heard : s.Heard unique call) {result : TableRows R × List RowChange}
    (changes : s.changes unique call = result.2) :
    ((s.monitorChanges call.collection).execute call.collection result).Told := by
  have monitored := told.monitorChanges call.collection
  obtain ⟨distinct, lists, registered⟩ := registered_foldl_callHook monitored.distinct
    monitored.whole (s.monitorChanges call.collection).hook result.2
  rw [list_monitorChanges] at lists registered
  refine ⟨distinct, fun {c l w} simple mem => ?_⟩
  have mem' : w ∈ s.watching.list c l := lists ▸ mem
  have before : (s.monitorChanges call.collection).watching.changeSet.Registered w ↔
      s.Due c l := by
    rw [monitored.told simple (list_monitorChanges s call.collection ▸ mem'), Due, Due,
      changed_monitorChanges]
  have due : ((s.monitorChanges call.collection).execute call.collection result).Due c l ↔
      s.Due c l ∨ c = call.collection ∧ ∃ change ∈ result.2, change.Concerns l := by
    simp only [Due, WatchedTxn.execute, changed_monitorChanges, List.mem_append, List.mem_map,
      Prod.mk.injEq]
    constructor
    · rintro ⟨change, old | ⟨change', listed, rfl, rfl⟩, concerns⟩
      · exact Or.inl ⟨change, old, concerns⟩
      · exact Or.inr ⟨rfl, change', listed, concerns⟩
    · rintro (⟨change, old, concerns⟩ | ⟨rfl, change, listed, concerns⟩)
      · exact ⟨change, Or.inl old, concerns⟩
      · exact ⟨change, Or.inr ⟨change, listed, rfl, rfl⟩, concerns⟩
  rw [due]
  refine (registered mem').trans ?_
  rw [before]
  have filled : s.watching.list c l ≠ [] := List.ne_nil_of_mem mem'
  have watchers := heard.reported
  have foreign := heard.own
  rw [changes] at watchers foreign
  by_cases watched : s.Watched call.collection
  · rw [hook_of_watched watched]
    constructor
    · rintro (old | ⟨same, change, mem, -, concerns⟩)
      · exact Or.inl old
      · exact Or.inr ⟨(Option.some.inj same).symm, change, mem, concerns⟩
    · rintro (old | ⟨rfl, change, mem, concerns⟩)
      · exact Or.inl old
      · rcases watchers l simple change mem concerns with empty | old | told
        · exact absurd empty filled
        · exact Or.inl old
        · exact Or.inr ⟨rfl, told⟩
  · obtain ⟨hook, none⟩ := hook_of_not_watched watched
    rw [hook]
    constructor
    · rintro (old | ⟨same, change, mem, reported, concerns⟩)
      · exact Or.inl old
      · rcases foreign.resolve_left watched c same l simple change mem reported concerns with
          empty | old
        · exact absurd empty filled
        · exact Or.inl old
    · rintro (old | ⟨rfl, -⟩)
      · exact Or.inl old
      · exact absurd mem' (none l w)

theorem Told.of_same {s s' : WatchedTxn Q R} (told : s.Told) (watching : s'.watching = s.watching)
    (changed : s'.changed = s.changed) : s'.Told := by
  constructor
  · exact watching ▸ told.distinct
  · intro c l w simple mem
    rw [watching] at mem ⊢
    rw [told.told simple mem, Due, Due, changed]

theorem Told.queryUpdate {unique : Nat → R → R → Bool} {s : WatchedTxn Q R} (told : s.Told)
    {query : SQLiteQuery R} {offset limit : Option UInt32} {set : R → R}
    {details : List ChangeDetail}
    (heard : s.Heard unique (.queryUpdate query offset limit set details)) :
    (s.queryUpdate unique query offset limit set details).2.Told := by
  unfold WatchedTxn.queryUpdate
  simp only
  split
  · exact told
  · rename_i table found
    split
    · exact told.monitorChanges _
    · split
      · exact (told.monitorChanges _).of_same rfl rfl
      · rename_i result updated
        have changed : s.changes unique (.queryUpdate query offset limit set details) = result.2 := by
          simp [changes, WatchedCall.collection, WatchedCall.result, found, updated]
        have executed := told.execute heard changed
        exact (executed.recordDetails query.collectionIndex.toNat details).of_same rfl rfl

theorem Told.queryDelete {unique : Nat → R → R → Bool} {s : WatchedTxn Q R} (told : s.Told)
    {query : SQLiteQuery R} {offset limit : Option UInt32} {details : List ChangeDetail}
    (heard : s.Heard unique (.queryDelete query offset limit details)) :
    (s.queryDelete query offset limit details).2.Told := by
  unfold WatchedTxn.queryDelete
  simp only
  split
  · exact told
  · rename_i table found
    split
    · exact told.monitorChanges _
    · have changed : s.changes unique (.queryDelete query offset limit details) =
          (query.delete table offset limit).2 := by
        simp [changes, WatchedCall.collection, WatchedCall.result, found]
      have executed := told.execute heard changed
      exact (executed.recordDetails query.collectionIndex.toNat details).of_same rfl rfl

theorem Told.insert {unique : Nat → R → R → Bool} {s : WatchedTxn Q R} (told : s.Told)
    {collectionIndex : UInt16} {rows : TableRows R} {details : List ChangeDetail}
    (heard : s.Heard unique (.insert collectionIndex rows details)) :
    (s.insert unique collectionIndex rows details).Told := by
  unfold WatchedTxn.insert
  simp only
  split
  · exact told.of_same rfl rfl
  · rename_i table found
    split
    · exact told.monitorChanges _
    · have changed : s.changes unique (.insert collectionIndex rows details) =
          (table.insertRows (unique collectionIndex.toNat) rows).2 := by
        simp [changes, WatchedCall.collection, WatchedCall.result, found]
      have executed := told.execute heard changed
      exact executed.recordDetails collectionIndex.toNat details

theorem state_update (unique : Nat → R → R → Bool) (s : WatchedTxn Q R) (collectionIndex : UInt16)
    (id : Int64) (set : R → R) (details : List ChangeDetail) :
    (s.update unique collectionIndex id set details).2 =
      (s.queryUpdate unique (.ofId collectionIndex id) none none set details).2 := by
  unfold WatchedTxn.update
  split <;> simp_all

theorem state_delete (s : WatchedTxn Q R) (collectionIndex : UInt16) (id : Int64)
    (details : List ChangeDetail) :
    (s.delete collectionIndex id details).2 =
      (s.queryDelete (.ofId collectionIndex id) none none details).2 := by
  unfold WatchedTxn.delete
  split <;> simp_all

theorem state_clear (s : WatchedTxn Q R) (collectionIndex : UInt16) (details : List ChangeDetail) :
    (s.clear collectionIndex details).2 =
      (s.queryDelete (.all collectionIndex) none none details).2 := by
  unfold WatchedTxn.clear
  split <;> simp_all

theorem told_step {unique : Nat → R → R → Bool} {s : WatchedTxn Q R} {call : WatchedCall R}
    (told : s.Told) (heard : s.Heard unique call) : (s.step unique call).Told := by
  cases call with
  | insert collectionIndex rows details => exact told.insert heard
  | update collectionIndex id set details =>
    have heard' : s.Heard unique (.queryUpdate (.ofId collectionIndex id) none none set details) :=
      ⟨heard.own, heard.reported⟩
    show (s.update unique collectionIndex id set details).2.Told
    rw [state_update]
    exact told.queryUpdate heard'
  | delete collectionIndex id details =>
    have heard' : s.Heard unique (.queryDelete (.ofId collectionIndex id) none none details) :=
      ⟨heard.own, heard.reported⟩
    show (s.delete collectionIndex id details).2.Told
    rw [state_delete]
    exact told.queryDelete heard'
  | queryUpdate query offset limit set details => exact told.queryUpdate heard
  | queryDelete query offset limit details => exact told.queryDelete heard
  | clear collectionIndex details =>
    have heard' : s.Heard unique (.queryDelete (.all collectionIndex) none none details) :=
      ⟨heard.own, heard.reported⟩
    show (s.clear collectionIndex details).2.Told
    rw [state_clear]
    exact told.queryDelete heard'

/-! ## Runs -/

/-- A call whose changes reach their watchers. -/
def Hearing (unique : Nat → R → R → Bool) (s : WatchedTxn Q R) (call : WatchedCall R)
    (s' : WatchedTxn Q R) : Prop :=
  s.Heard unique call ∧ s' = s.step unique call

theorem told_start {watching : Watching Q} (distinct : watching.Distinct)
    (tables : List (TableRows R)) : (start tables watching).Told := by
  constructor
  · exact ⟨distinct.nodup, distinct.apart, distinct.fresh, by
      simp [start, ChangeSet.new, ChangeSet.Keyed]⟩
  · intro c l w _ _
    simp [start, ChangeSet.new, ChangeSet.Registered, Due]

theorem told_run {unique : Nat → R → R → Bool} {s s' : WatchedTxn Q R}
    {calls : List (WatchedCall R)} (told : s.Told) (run : Run (Hearing unique) s calls s') :
    s'.Told := by
  apply run.invariant _ told
  intro s call s' told one
  obtain ⟨heard, rfl⟩ := one
  exact told_step told heard

theorem list_execute (s : WatchedTxn Q R) (c : Nat) (result : TableRows R × List RowChange) :
    (s.execute c result).watching.list = s.watching.list := by
  have hooked : ∀ watching : Watching Q,
      (result.2.foldl (callHook s.hook) watching).list = watching.list := by
    induction result.2 with
    | nil => exact fun watching => rfl
    | cons change changes ih =>
      intro watching
      rw [List.foldl_cons, ih, list_callHook]
  exact hooked s.watching

theorem list_recordDetails (s : WatchedTxn Q R) (c : Nat) (details : List ChangeDetail) :
    (s.recordDetails c details).watching.list = s.watching.list :=
  list_record s.watching c _

theorem list_queryUpdate (unique : Nat → R → R → Bool) (s : WatchedTxn Q R)
    (query : SQLiteQuery R) (offset limit : Option UInt32) (set : R → R)
    (details : List ChangeDetail) :
    (s.queryUpdate unique query offset limit set details).2.watching.list = s.watching.list := by
  unfold queryUpdate
  simp only
  split
  · rfl
  · split
    · exact list_monitorChanges s _
    · split
      · exact list_monitorChanges s _
      · simp only [stopMonitorChanges, list_recordDetails, list_execute, list_monitorChanges]

theorem list_queryDelete (s : WatchedTxn Q R) (query : SQLiteQuery R)
    (offset limit : Option UInt32) (details : List ChangeDetail) :
    (s.queryDelete query offset limit details).2.watching.list = s.watching.list := by
  unfold queryDelete
  simp only
  split
  · rfl
  · split
    · exact list_monitorChanges s _
    · simp only [stopMonitorChanges, list_recordDetails, list_execute, list_monitorChanges]

/-- The watchers of the collections do not change during a transaction. -/
theorem list_step (unique : Nat → R → R → Bool) (s : WatchedTxn Q R) (call : WatchedCall R) :
    (s.step unique call).watching.list = s.watching.list := by
  cases call with
  | insert collectionIndex rows details =>
    show (s.insert unique collectionIndex rows details).watching.list = s.watching.list
    unfold insert
    simp only
    split
    · rfl
    · split
      · exact list_monitorChanges s _
      · simp only [list_recordDetails, list_execute, list_monitorChanges]
  | update collectionIndex id set details =>
    show (s.update unique collectionIndex id set details).2.watching.list = s.watching.list
    rw [state_update]
    exact list_queryUpdate unique s _ none none set details
  | delete collectionIndex id details =>
    show (s.delete collectionIndex id details).2.watching.list = s.watching.list
    rw [state_delete]
    exact list_queryDelete s _ none none details
  | queryUpdate query offset limit set details =>
    exact list_queryUpdate unique s query offset limit set details
  | queryDelete query offset limit details =>
    exact list_queryDelete s query offset limit details
  | clear collectionIndex details =>
    show (s.clear collectionIndex details).2.watching.list = s.watching.list
    rw [state_clear]
    exact list_queryDelete s _ none none details

theorem list_run {unique : Nat → R → R → Bool} {s s' : WatchedTxn Q R}
    {calls : List (WatchedCall R)} (run : Run (Hearing unique) s calls s') :
    s'.watching.list = s.watching.list := by
  induction run with
  | nil => rfl
  | cons one _ ih =>
    obtain ⟨-, rfl⟩ := one
    rw [ih, list_step]

/-- In every committed transaction whose calls leave no foreign hook in place and change no watched
row in silence, a collection watcher is notified if and only if a row of its collection was
inserted, updated or deleted, and an object watcher if and only if its row was. -/
theorem watchers_notified_for_own_rows (unique : Nat → R → R → Bool) {n : Nat}
    {registrations : List (WatchCall Q Unit)} {watching : Watching Q}
    (registered : Run Watching.Registers (Watching.start n) registrations watching)
    (tables : List (TableRows R)) {calls : List (WatchedCall R)} {s : WatchedTxn Q R}
    (run : Run (Hearing unique) (start tables watching) calls s) {notified : List Watcher}
    (committed : s.commit = .ok notified) :
    (∀ c, ∀ w ∈ watching.list c .all,
      (w ∈ notified ↔ ∃ change, (c, change) ∈ s.changed)) ∧
    ∀ c id, ∀ w ∈ watching.list c (.object id.toUInt64),
      (w ∈ notified ↔ ∃ change, (c, change) ∈ s.changed ∧ change.id = id) := by
  have distinct : watching.Distinct := distinct_registered registered
  have told := told_run (told_start distinct tables) run
  have lists : s.watching.list = watching.list := list_run run
  have notified_iff : ∀ w, w ∈ notified ↔ s.watching.changeSet.Registered w := by
    intro w
    unfold commit at committed
    split at committed
    · cases committed
    · cases committed
      exact told.distinct.keyed.notified.2 w
  constructor
  · intro c w mem
    rw [notified_iff, told.told (l := .all) (by simp) (lists ▸ mem)]
    simp [Due, RowChange.Concerns]
  · intro c id w mem
    rw [notified_iff, told.told (l := .object id.toUInt64) (by simp) (lists ▸ mem)]
    have same : ∀ change : RowChange, change.id.toUInt64 = id.toUInt64 ↔ change.id = id := by
      intro change
      constructor
      · intro eq
        exact Int64.toBitVec_inj.mp (congrArg UInt64.toBitVec eq)
      · intro eq
        rw [eq]
    simp only [Due, RowChange.Concerns, same]

/-- A call on a watched collection that changes no row in silence. -/
theorem heard_of_reported {unique : Nat → R → R → Bool} {s : WatchedTxn Q R} {call : WatchedCall R}
    (watched : s.Watched call.collection)
    (reported : ∀ change ∈ s.changes unique call, change.reported = true) :
    s.Heard unique call := by
  refine ⟨Or.inl watched, fun l _ change mem concerns => ?_⟩
  exact Or.inr (Or.inr ⟨change, mem, reported change mem, concerns⟩)

/-- An insert into a collection with watchers and the removal of the row. -/
theorem watchers_notified_of_insert :
    let unique : Nat → Unit → Unit → Bool := fun _ _ _ => false
    let registrations : List (WatchCall Unit Unit) := [.watch 0, .watchObject 0 5]
    let watching := registrations.foldl (Watching.step fun _ _ _ => true) (Watching.start 1)
    let calls : List (WatchedCall Unit) := [.insert 0 [(5, ())] [], .delete 0 5 []]
    let s := calls.foldl (step unique) (start [[]] watching)
    (∀ c, ∀ w ∈ watching.list c .all,
      (w ∈ s.watching.changeSet.notified ↔ ∃ change, (c, change) ∈ s.changed)) ∧
    ∀ c id, ∀ w ∈ watching.list c (.object id.toUInt64),
      (w ∈ s.watching.changeSet.notified ↔ ∃ change, (c, change) ∈ s.changed ∧ change.id = id) := by
  intro unique registrations watching calls s
  have first : (0 : UInt64) + 1 ≠ 0 := by decide
  have second : (1 : UInt64) + 1 ≠ 0 := by decide
  have registered : Run Watching.Registers (Watching.start 1) registrations watching :=
    .cons ⟨rfl, first, rfl⟩ (.cons ⟨rfl, second, rfl⟩ .nil)
  have inserted : Heard unique (start [[]] watching) (.insert 0 [(5, ())] []) :=
    heard_of_reported ⟨_, rfl, rfl⟩ (by decide)
  have deleted : Heard unique ((start [[]] watching).step unique (.insert 0 [(5, ())] []))
      (.delete 0 5 []) :=
    heard_of_reported ⟨_, rfl, rfl⟩ (by decide)
  have run : Run (Hearing unique) (start [[]] watching) calls s :=
    .cons ⟨inserted, rfl⟩ (.cons ⟨deleted, rfl⟩ .nil)
  exact watchers_notified_for_own_rows unique registered [[]] run rfl

/-- An insert leaves its hook in place. The removal of row 7 of a collection without watchers is
then taken for one of row 7 of the first collection. -/
theorem foreign_row_notified :
    let unique : Nat → Unit → Unit → Bool := fun _ _ _ => false
    let watching := Watching.step (fun _ _ _ => true) (Watching.start 2)
      (.watchObject 0 7 : WatchCall Unit Unit)
    let calls : List (WatchedCall Unit) := [.insert 0 [(5, ())] [], .delete 1 7 []]
    let s := calls.foldl (step unique) (start [[], [(7, ())]] watching)
    ⟨0⟩ ∈ watching.list 0 (.object (7 : Int64).toUInt64) ∧ s.commit = .ok [⟨0⟩] ∧
      ¬ ∃ change, (0, change) ∈ s.changed ∧ change.id = 7 := by
  intro unique watching calls s
  refine ⟨by decide, rfl, ?_⟩
  rintro ⟨change, mem, same⟩
  have changed : s.changed = [(0, .inserted 5), (1, .deleted 7)] := rfl
  rw [changed] at mem
  simp only [List.mem_cons, Prod.mk.injEq, List.not_mem_nil] at mem
  rcases mem with ⟨-, rfl⟩ | ⟨absurd, -⟩ | none
  · exact absurd same (by decide)
  · cases absurd
  · exact none

/-- No watcher is told that a collection was cleared. -/
theorem cleared_collection_missed :
    let unique : Nat → Unit → Unit → Bool := fun _ _ _ => false
    let watching := Watching.step (fun _ _ _ => true) (Watching.start 1)
      (.watch 0 : WatchCall Unit Unit)
    let s := step unique (start [[(7, ())]] watching) (.clear 0 [])
    s.commit = .ok [] ∧ s.changed = [(0, .truncated 7)] := by
  exact ⟨rfl, rfl⟩

end WatchedTxn

end Sqlite

end IsarPlus
