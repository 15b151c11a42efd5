import IsarPlus.Native.Proofs.IndexConsistency
import IsarPlus.Native.Watchers

/-!
# Query watchers see the changes of their result

A deleted object is shown to the query watchers as it was, a stored one only as it is now. A
watcher misses that an object leaves its result by a put; it sees every other change.
-/

namespace IsarPlus.Native
open ByteBuffer OrderedStore

variable {xxh3_64 : Bytes → UInt64} {toLowercase : List Char → List Char}

/-! ## Logged changes and notified watchers -/

/-- A logged change that notifies the watchers of a query. -/
def Change.Shows (toLowercase : List Char → List Char) (collection : String) (q : NativeQuery) :
    Change → Prop
  | .object c id bytes => c = collection ∧ q.isMatch toLowercase id bytes = true
  | .detailed _ _ _ _ => False
  | .all c => c = collection

theorem registered_record {watchers : String → RawCollectionWatchers NativeQuery} {cs : ChangeSet}
    {w : Watcher} (registered : cs.Registered w) (change : Change) :
    (change.record toLowercase watchers cs).Registered w := by
  have one : ∀ (cs : ChangeSet) w', cs.Registered w → (cs.insert w').Registered w :=
    fun cs w' h => ChangeSet.registered_insert.mpr (Or.inr h)
  cases change with
  | object c id bytes => exact ChangeSet.registerChange_induction one registered _ id bytes
  | detailed c id old new => exact registered
  | all c => exact ChangeSet.registerAll_induction one registered _

theorem registered_of_shows {watchers : String → RawCollectionWatchers NativeQuery}
    {collection : String} {q : NativeQuery} {w : Watcher}
    (watched : (q, w) ∈ (watchers collection).queryWatchers) {cs : ChangeSet} {change : Change}
    (shows' : change.Shows toLowercase collection q) :
    (change.record toLowercase watchers cs).Registered w := by
  cases change with
  | object c id bytes =>
    obtain ⟨rfl, isMatch⟩ := shows'
    simp only [Change.record]
    rw [ChangeSet.registerChange_eq, ChangeSet.registered_markQueryWatchers]
    exact Or.inr ⟨q, watched, isMatch⟩
  | detailed c id old new => exact shows'.elim
  | all c =>
    obtain rfl : c = collection := shows'
    simp only [Change.record]
    rw [ChangeSet.registerAll_eq, ChangeSet.registered_foldl_insert]
    exact Or.inr (List.mem_map.mpr ⟨(q, w), watched, rfl⟩)

theorem keyed_changes (txn : NativeTxn) (watchers : String → RawCollectionWatchers NativeQuery) :
    (txn.changes toLowercase watchers).Keyed := by
  unfold NativeTxn.changes
  refine List.foldlRecOn txn.changeSet _ (by simp [ChangeSet.new, ChangeSet.Keyed]) ?_
  intro cs keyed change _
  cases change with
  | object c id bytes =>
    exact ChangeSet.registerChange_induction ChangeSet.keyed_insert keyed _ id bytes
  | detailed c id old new => exact keyed
  | all c => exact ChangeSet.registerAll_induction ChangeSet.keyed_insert keyed _

/-- The transaction has logged a change that notifies the watchers of the query. -/
def NativeTxn.Notifies (toLowercase : List Char → List Char) (collection : String)
    (q : NativeQuery) (txn : NativeTxn) : Prop :=
  ∃ change ∈ txn.changeSet, change.Shows toLowercase collection q

theorem NativeTxn.Notifies.notified {txn : NativeTxn} {collection : String} {q : NativeQuery}
    (notifies : txn.Notifies toLowercase collection q)
    {watchers : String → RawCollectionWatchers NativeQuery} {w : Watcher}
    (watched : (q, w) ∈ (watchers collection).queryWatchers) :
    w ∈ (txn.changes toLowercase watchers).notified := by
  rw [(keyed_changes txn watchers).notified.2]
  obtain ⟨change, mem, shows'⟩ := notifies
  obtain ⟨before, after, split⟩ := List.append_of_mem mem
  unfold NativeTxn.changes
  rw [split, List.foldl_append, List.foldl_cons]
  refine List.foldlRecOn (motive := fun cs : ChangeSet => cs.Registered w) after _
    (registered_of_shows watched shows') ?_
  intro cs registered change _
  exact registered_record registered change

/-! ## What the operations log -/

namespace NativeCollection

variable {c : NativeCollection} {q : NativeQuery}

/-- What a delete, and a change of an index entry, preserve is preserved by the loop that stores an
object's entries. -/
theorem createEntries_induction {P : NativeTxn → Prop}
    (delete : ∀ {txn txn' id found}, P txn → c.delete xxh3_64 txn id = .ok (txn', found) → P txn')
    (putEntry : ∀ {txn} db key value, P txn → P (txn.putEntry db key value))
    {txn txn' : NativeTxn} {id : Int64} {object : IsarDeserializer} (start : P txn)
    (h : c.createEntries xxh3_64 txn id object = .ok txn') : P txn' := by
  unfold createEntries at h
  generalize c.indexes = indexes at h
  induction indexes generalizing txn with
  | nil => exact pure_eq_ok.mp h ▸ start
  | cons index indexes ih =>
    simp only [List.foldlM_cons, bind_eq_ok] at h
    obtain ⟨txn₁, first, h⟩ := h
    refine ih ?_ h
    simp only [NativeIndex.createForObject, bind_eq_ok, orPanic_eq_ok, pure_eq_ok] at first
    obtain ⟨⟨key, containsNull⟩, -, txn₀, cleared, rfl⟩ := first
    refine putEntry _ _ _ ?_
    unfold NativeIndex.deleteConflict at cleared
    split at cleared
    · split at cleared
      · simp only [bind_eq_ok, orPanic_eq_ok] at cleared
        obtain ⟨conflict, -, cleared⟩ := cleared
        obtain ⟨⟨txn₂, found⟩, deleted, rfl⟩ := map_eq_ok.mp cleared
        exact delete start deleted
      · exact pure_eq_ok.mp cleared ▸ start
    · exact pure_eq_ok.mp cleared ▸ start

/-- Removing index entries changes neither the objects nor the log. -/
theorem deleteEntries_same {txn txn' : NativeTxn} {id : Int64} {object : IsarDeserializer}
    (h : c.deleteEntries xxh3_64 txn id object = .ok txn') :
    txn'.primary = txn.primary ∧ txn'.changeSet = txn.changeSet := by
  unfold deleteEntries at h
  generalize c.indexes = indexes at h
  induction indexes generalizing txn with
  | nil =>
    obtain rfl : txn = txn' := pure_eq_ok.mp h
    exact ⟨rfl, rfl⟩
  | cons index indexes ih =>
    simp only [List.foldlM_cons, bind_eq_ok] at h
    obtain ⟨txn₁, first, h⟩ := h
    obtain ⟨key, containsNull, -, rfl⟩ := NativeIndex.deleteForObject_spec first
    obtain ⟨primary, log⟩ := ih h
    exact ⟨primary, log⟩

/-- The log of a transaction only grows. -/
def Grows (txn txn' : NativeTxn) : Prop := ∀ change ∈ txn.changeSet, change ∈ txn'.changeSet

theorem grows_register (txn : NativeTxn) (change : Change) : Grows txn (txn.register change) :=
  fun _ mem => List.mem_append_left _ mem

theorem grows_registerDetailed (txn : NativeTxn) (id : Int64) (old new : Option Bytes) :
    Grows txn (c.registerDetailed txn id old new) := by
  unfold registerDetailed
  split
  · exact grows_register txn _
  · exact fun _ mem => mem

/-- A delete logs the object that it removes. -/
theorem delete_logs {txn txn' : NativeTxn} {id : Int64} {found : Bool}
    (h : c.delete xxh3_64 txn id = .ok (txn', found)) :
    Grows txn txn' ∧ c.objects txn' = Function.update (c.objects txn) id none ∧
      ∀ bytes, c.objects txn id = some bytes → .object c.name id bytes ∈ txn'.changeSet := by
  simp only [delete, bind_eq_ok, cursorDb_eq_ok] at h
  obtain ⟨db, hdb, h⟩ := h
  rw [objects_of_db hdb, objects_of_db hdb]
  split at h
  · rename_i bytes stored
    simp only [bind_eq_ok, orPanic_eq_ok, pure_eq_ok, Prod.mk.injEq] at h
    obtain ⟨object, parsed, txn₁, removed, rfl, rfl⟩ := h
    obtain ⟨primary, log⟩ := deleteEntries_same removed
    have logged : ∀ change ∈ (txn.register (.object c.name id bytes)).changeSet,
        change ∈ (txn₁.deleteObject db id).changeSet := by
      intro change mem
      have mem' := grows_registerDetailed (c := c) _ id (some bytes) none change mem
      show change ∈ txn₁.changeSet
      rwa [log]
    refine ⟨fun change mem => logged change (grows_register txn _ change mem), ?_, ?_⟩
    · funext id'
      rw [NativeTxn.get_deleteObject, Function.update_apply]
      simp only [NativeTxn.get, primary, primary_registerDetailed]
      rfl
    · intro bytes' stored'
      obtain rfl := Option.some.inj (stored.symm.trans stored')
      exact logged _ (List.mem_append_right _ (List.mem_singleton_self _))
  · rename_i stored
    simp only [pure_eq_ok, Prod.mk.injEq] at h
    obtain ⟨rfl, rfl⟩ := h
    refine ⟨fun _ mem => mem, ?_, fun bytes stored' => ?_⟩
    · rw [← stored, Function.update_eq_self]
    · rw [stored] at stored'
      cases stored'

/-! ## The result of a query -/

/-- The stored objects that match a query. -/
def matching (toLowercase : List Char → List Char) (c : NativeCollection) (q : NativeQuery)
    (txn : NativeTxn) (id : Int64) : Option Bytes :=
  (c.objects txn id).filter (q.isMatch toLowercase id)

/-- The watchers of the query are notified, or its result is as it was. -/
def Seen (toLowercase : List Char → List Char) (c : NativeCollection) (q : NativeQuery)
    (before : Int64 → Option Bytes) (txn : NativeTxn) : Prop :=
  txn.Notifies toLowercase c.name q ∨ c.matching toLowercase q txn = before

/-- A put does not take an object out of the result: if the old object matches, the new one does or
is the same. -/
def StaysMatching (toLowercase : List Char → List Char) (c : NativeCollection) (q : NativeQuery)
    (txn : NativeTxn) (id : Int64) (bytes : Bytes) : Prop :=
  ∀ old, c.objects txn id = some old → q.isMatch toLowercase id old = true →
    q.isMatch toLowercase id bytes = true ∨ bytes = old

instance decidableStaysMatching (c : NativeCollection) (q : NativeQuery) (txn : NativeTxn)
    (id : Int64) (bytes : Bytes) : Decidable (StaysMatching toLowercase c q txn id bytes) :=
  inferInstanceAs (Decidable (∀ old ∈ c.objects txn id, _ → _))

variable {before : Int64 → Option Bytes}

theorem notifies_of_grows {txn txn' : NativeTxn} {collection : String}
    (notifies : txn.Notifies toLowercase collection q) (grows : Grows txn txn') :
    txn'.Notifies toLowercase collection q := by
  obtain ⟨change, mem, shows'⟩ := notifies
  exact ⟨change, grows change mem, shows'⟩

theorem seen_of_grows {txn txn' : NativeTxn} (seen : Seen toLowercase c q before txn)
    (grows : Grows txn txn') (same : c.objects txn' = c.objects txn) :
    Seen toLowercase c q before txn' := by
  rcases seen with notifies | unchanged
  · exact Or.inl (notifies_of_grows notifies grows)
  · refine Or.inr ?_
    rw [← unchanged]
    funext id
    rw [matching, same, matching]

theorem seen_delete {txn txn' : NativeTxn} {id : Int64} {found : Bool}
    (seen : Seen toLowercase c q before txn)
    (h : c.delete xxh3_64 txn id = .ok (txn', found)) : Seen toLowercase c q before txn' := by
  obtain ⟨grows, objects, logged⟩ := delete_logs h
  rcases seen with notifies | unchanged
  · exact Or.inl (notifies_of_grows notifies grows)
  · by_cases shown : ∃ bytes, c.objects txn id = some bytes ∧ q.isMatch toLowercase id bytes = true
    · obtain ⟨bytes, stored, isMatch⟩ := shown
      exact Or.inl ⟨_, logged bytes stored, rfl, isMatch⟩
    · refine Or.inr ?_
      rw [← unchanged]
      funext id'
      rw [matching, matching, objects, Function.update_apply]
      split
      · rename_i here
        subst here
        cases stored : c.objects txn id' with
        | none => rfl
        | some bytes =>
          have unmatched : q.isMatch toLowercase id' bytes = false := by
            by_contra isMatch
            exact shown ⟨bytes, stored, by simpa using isMatch⟩
          exact (Option.filter_some_neg (by simpa using unmatched)).symm
      · rfl

/-- What `put` does before it stores the object, apart from the index entries. -/
theorem put_steps {txn txn' : NativeTxn} {id : Int64} {bytes : Bytes}
    (h : c.put xxh3_64 txn id bytes = .ok txn') :
    ∃ txn₁ txn₂ object, Grows txn txn₁ ∧ c.objects txn₁ = c.objects txn ∧
      .object c.name id bytes ∈ txn₁.changeSet ∧
      c.createEntries xxh3_64 txn₁ id object = .ok txn₂ ∧ Grows txn₂ txn' ∧
      c.objects txn' = Function.update (c.objects txn₂) id (some bytes) := by
  simp only [put, bind_eq_ok, cursorDb_eq_ok, orPanic_eq_ok, pure_eq_ok] at h
  obtain ⟨db, hdb, txn₀, removed, object, parsed, txn₂, created, rfl⟩ := h
  have removed' : txn₀.primary = txn.primary ∧ txn₀.changeSet = txn.changeSet := by
    cases old : c.oldObject txn db id with
    | none =>
      rw [old] at removed
      obtain rfl : txn = txn₀ := pure_eq_ok.mp removed
      exact ⟨rfl, rfl⟩
    | some oldBytes =>
      simp only [old, deleteOldEntries, bind_eq_ok, orPanic_eq_ok] at removed
      obtain ⟨oldObject, -, removed⟩ := removed
      exact deleteEntries_same removed
  obtain ⟨primary, log⟩ := removed'
  have grows := grows_registerDetailed (c := c) (txn₀.register (.object c.name id bytes)) id
    (c.oldObject txn db id) (some bytes)
  refine ⟨_, txn₂, object, ?_, ?_, ?_, created, fun _ mem => mem, ?_⟩
  · intro change mem
    exact grows _ (List.mem_append_left _ (log ▸ mem))
  · refine objects_congr ?_
    rw [primary_registerDetailed]
    exact primary
  · exact grows _ (List.mem_append_right _ (List.mem_singleton_self _))
  · funext id'
    rw [objects_of_db hdb, objects_of_db hdb, NativeTxn.get_putObject, Function.update_apply]
    rfl

theorem seen_put {txn txn' : NativeTxn} {id : Int64} {bytes : Bytes}
    (seen : Seen toLowercase c q before txn) (stays : StaysMatching toLowercase c q txn id bytes)
    (h : c.put xxh3_64 txn id bytes = .ok txn') : Seen toLowercase c q before txn' := by
  obtain ⟨txn₁, txn₂, object, grows, same, logged, created, grows', objects⟩ := put_steps h
  have later : ∀ {txn}, Grows txn txn₁ → Grows txn txn' := by
    intro txn grows change mem
    refine grows' change ?_
    exact createEntries_induction (P := fun txn => change ∈ txn.changeSet)
      (fun mem deleted => (delete_logs deleted).1 change mem) (fun _ _ _ mem => mem)
      (grows change mem) created
  rcases seen with notifies | unchanged
  · exact Or.inl (notifies_of_grows notifies (later grows))
  · by_cases isMatch : q.isMatch toLowercase id bytes = true
    · have notifies : txn₁.Notifies toLowercase c.name q := ⟨_, logged, rfl, isMatch⟩
      exact Or.inl (notifies_of_grows notifies (later fun _ mem => mem))
    · -- Neither the old nor the new object is in the result.
      have absent : before id = none := by
        rw [← unchanged, matching]
        cases stored : c.objects txn id with
        | none => rfl
        | some old =>
          apply Option.filter_some_eq_none.mpr
          intro isMatch'
          rcases stays old stored isMatch' with isMatch'' | rfl
          · exact isMatch isMatch''
          · exact isMatch isMatch'
      have seen₂ : Seen toLowercase c q before txn₂ :=
        createEntries_induction seen_delete (fun _ _ _ seen => seen)
          (seen_of_grows (Or.inr unchanged) grows same) created
      rcases seen₂ with notifies | unchanged₂
      · exact Or.inl (notifies_of_grows notifies grows')
      · refine Or.inr ?_
        funext id'
        rw [matching, objects, Function.update_apply]
        split
        · rename_i here
          subst here
          rw [absent]
          exact Option.filter_some_eq_none.mpr isMatch
        · rw [← unchanged₂, matching]

theorem seen_clear {txn txn' : NativeTxn} (h : c.clear xxh3_64 txn = .ok txn') :
    Seen toLowercase c q before txn' := by
  obtain ⟨db, -, -, rfl⟩ := clear_eq_ok.mp h
  have log : ∀ (indexes : List NativeIndex) (txn : NativeTxn),
      (indexes.foldl (fun txn index => index.clear txn) txn).changeSet = txn.changeSet := by
    intro indexes
    induction indexes with
    | nil => exact fun _ => rfl
    | cons index indexes ih => exact fun txn => ih (index.clear txn)
  refine Or.inl ⟨.all c.name, ?_, rfl⟩
  rw [log]
  exact List.mem_append_right _ (List.mem_singleton_self _)

theorem preserved_seen :
    Preserved xxh3_64 c (StaysMatching toLowercase c q) (Seen toLowercase c q before) where
  put := seen_put
  delete := seen_delete
  clear := fun _ h => seen_clear h

/-- If every put of a transaction keeps matching objects in the result of a query, its watchers
are notified at the commit whenever the result has changed. -/
theorem query_watchers_notified {txn txn' : NativeTxn} {operations : List Operation}
    (watchers : String → RawCollectionWatchers NativeQuery) {w : Watcher}
    (watched : (q, w) ∈ (watchers c.name).queryWatchers)
    (meets : c.Meets xxh3_64 (StaysMatching toLowercase c q) txn.begin operations)
    (h : c.run xxh3_64 txn.begin operations = .ok txn')
    (differs : c.matching toLowercase q txn' ≠ c.matching toLowercase q txn) :
    w ∈ (txn'.changes toLowercase watchers).notified := by
  have start : Seen toLowercase c q (c.matching toLowercase q txn) txn.begin := Or.inr rfl
  have seen := preserved_seen.run start meets h
  rcases seen with notifies | unchanged
  · exact notifies.notified watched
  · exact absurd unchanged differs

/-- The tags from `"a"` to `"b"`. -/
def namedAToB : NativeQuery where
  filter := .value 0 (.string (some [97]) (some [98]) true)
  sort := []
  distinct := []

/-- A tag in the result gets another name, with which it still matches. -/
theorem tags_watcher_notified :
    ∃ txn txn', tags.run (fun _ => 0) .empty [.save 1 (tag (some ['a']))] = .ok txn ∧
      tags.run (fun _ => 0) txn.begin [.save 1 (tag (some ['b']))] = .ok txn' ∧
      tags.matching id namedAToB txn 1 = some (tag (some ['a'])) ∧
      tags.matching id namedAToB txn' 1 = some (tag (some ['b'])) ∧
      ⟨0⟩ ∈ (txn'.changes id fun _ => RawCollectionWatchers.new.watchQuery namedAToB 0).notified := by
  obtain ⟨⟨txn, txn'⟩, h, found⟩ := exists_of_succeedsWith
    (do
      let txn ← tags.run (fun _ => 0) .empty [.save 1 (tag (some ['a']))]
      let txn' ← tags.run (fun _ => 0) txn.begin [.save 1 (tag (some ['b']))]
      pure (txn, txn'))
    (fun t => tags.matching id namedAToB t.1 1 = some (tag (some ['a'])) ∧
      tags.matching id namedAToB t.2 1 = some (tag (some ['b'])) ∧
      tags.Meets (fun _ => 0) (StaysMatching id tags namedAToB) t.1.begin
        [.save 1 (tag (some ['b']))])
    (by decide)
  simp only [bind_eq_ok, pure_eq_ok, Prod.mk.injEq] at h
  obtain ⟨txn, first, txn', second, rfl, rfl⟩ := h
  obtain ⟨old, new, meets⟩ := of_decide_eq_true found
  have differs : tags.matching id namedAToB txn' ≠ tags.matching id namedAToB txn := by
    intro same
    rw [same, old] at new
    exact absurd new (by decide)
  refine ⟨txn, txn', first, second, old, new,
    query_watchers_notified _ (q := namedAToB) ?_ meets second differs⟩
  exact List.mem_singleton_self _

/-- The tags named `"a"`. -/
def namedA : NativeQuery where
  filter := .value 0 (.string (some [97]) (some [97]) true)
  sort := []
  distinct := []

/-- A tag that loses the name leaves the result, and the watcher is not notified. -/
theorem tags_watcher_missed :
    ∃ txn txn', tags.run (fun _ => 0) .empty [.save 1 (tag (some ['a']))] = .ok txn ∧
      tags.run (fun _ => 0) txn.begin [.save 1 (tag (some ['b']))] = .ok txn' ∧
      tags.matching id namedA txn' ≠ tags.matching id namedA txn ∧
      ⟨0⟩ ∉ (txn'.changes id fun _ => RawCollectionWatchers.new.watchQuery namedA 0).notified := by
  obtain ⟨⟨txn, txn'⟩, h, found⟩ := exists_of_succeedsWith
    (do
      let txn ← tags.run (fun _ => 0) .empty [.save 1 (tag (some ['a']))]
      let txn' ← tags.run (fun _ => 0) txn.begin [.save 1 (tag (some ['b']))]
      pure (txn, txn'))
    (fun t => tags.matching id namedA t.1 1 != tags.matching id namedA t.2 1 &&
      decide (⟨0⟩ ∉
        (t.2.changes id fun _ => RawCollectionWatchers.new.watchQuery namedA 0).notified))
    (by decide)
  simp only [bind_eq_ok, pure_eq_ok, Prod.mk.injEq] at h
  obtain ⟨txn, first, txn', second, rfl, rfl⟩ := h
  simp only [Bool.and_eq_true, bne_iff_ne, decide_eq_true_eq] at found
  exact ⟨txn, txn', first, second, fun same => found.1 (congrFun same 1).symm, found.2⟩

end NativeCollection

end IsarPlus.Native
