import IsarPlus.Core.Marking
import IsarPlus.Lib.Run

/-!
# Which changes detailed watchers receive

A change set pairs all its detailed changes with all its detailed watchers. A watcher gets its own
collection's changes only as long as no change is recorded that one of them must not see
(`Separates`).
-/

namespace IsarPlus

theorem DetailedWatcher.id_inj {w w' : DetailedWatcher} : w.id = w'.id ↔ w = w' := by
  cases w
  cases w'
  simp

namespace ChangeSet

variable {Q : Type}

/-- What `notify_watchers` calls a detailed watcher with. -/
def received (cs : ChangeSet) (w : DetailedWatcher) : List ChangeDetail :=
  (cs.notifiedDetailed.filter fun call => call.1 = w).map fun call => call.2

theorem filter_pairs {ws : List DetailedWatcher} (nodup : ws.Nodup) (w : DetailedWatcher)
    (change : ChangeDetail) :
    (ws.map fun watcher => (watcher, change)).filter (fun call => call.1 = w) =
      if w ∈ ws then [(w, change)] else [] := by
  rw [List.filter_map]
  show (ws.filter fun watcher => watcher = w).map _ = _
  rw [List.filter_eq]
  by_cases mem : w ∈ ws
  · simp [List.count_eq_one_of_mem nodup mem, mem]
  · simp [List.count_eq_zero_of_not_mem mem, mem]

/-- Every watcher of the change set receives every change. -/
theorem received_eq {cs : ChangeSet} (nodup : cs.detailedWatchers.Nodup) (w : DetailedWatcher) :
    cs.received w = if w ∈ cs.detailedWatchers then cs.detailedChanges else [] := by
  unfold received notifiedDetailed
  rw [List.filter_flatMap]
  simp only [filter_pairs nodup]
  split
  · simp [List.map_flatMap]
  · simp

/-! ## What one operation records -/

theorem addDetailedWatcher_spec (cs : ChangeSet) (watcher : DetailedWatcher) :
    (cs.addDetailedWatcher watcher).detailedChanges = cs.detailedChanges ∧
    (cs.detailedWatchers.Nodup → (cs.addDetailedWatcher watcher).detailedWatchers.Nodup) ∧
    ∀ w, w ∈ (cs.addDetailedWatcher watcher).detailedWatchers ↔
      w ∈ cs.detailedWatchers ∨ w = watcher := by
  have known : (cs.detailedWatchers.any fun existing => existing.id = watcher.id) = true ↔
      watcher ∈ cs.detailedWatchers := by
    simp [DetailedWatcher.id_inj]
  unfold addDetailedWatcher
  split
  · rename_i present
    rw [known] at present
    refine ⟨rfl, id, fun w => ?_⟩
    constructor
    · exact Or.inl
    · rintro (mem | rfl)
      · exact mem
      · exact present
  · rename_i absent
    rw [known] at absent
    refine ⟨rfl, fun nodup => ?_, fun w => by simp⟩
    rw [List.nodup_append']
    exact ⟨nodup, List.nodup_singleton _, by simpa using absent⟩

theorem foldl_addDetailedWatcher (watchers : List DetailedWatcher) (cs : ChangeSet) :
    (watchers.foldl addDetailedWatcher cs).detailedChanges = cs.detailedChanges ∧
    (cs.detailedWatchers.Nodup → (watchers.foldl addDetailedWatcher cs).detailedWatchers.Nodup) ∧
    ∀ w, w ∈ (watchers.foldl addDetailedWatcher cs).detailedWatchers ↔
      w ∈ cs.detailedWatchers ∨ w ∈ watchers := by
  induction watchers generalizing cs with
  | nil => simp
  | cons watcher watchers ih =>
    obtain ⟨changes, nodup, mem⟩ := addDetailedWatcher_spec cs watcher
    obtain ⟨changes', nodup', mem'⟩ := ih (cs.addDetailedWatcher watcher)
    refine ⟨changes'.trans changes, fun h => nodup' (nodup h), fun w => ?_⟩
    rw [List.foldl_cons, mem', mem, List.mem_cons, or_assoc]

theorem foldl_registerDetailedChange (details : List ChangeDetail) (cs : ChangeSet) :
    details.foldl registerDetailedChange cs =
      { cs with detailedChanges := cs.detailedChanges ++ details } := by
  induction details generalizing cs with
  | nil => simp
  | cons detail details ih => simp [ih, registerDetailedChange]

/-- Detailed changes go to the change set together with the watchers of their collection, if there
are any. -/
theorem recordDetailed_spec (cs : ChangeSet) (cw : RawCollectionWatchers Q)
    (details : List ChangeDetail) :
    (cs.recordDetailed cw details).detailedChanges =
      cs.detailedChanges ++ (if cw.detailedWatchers = [] then [] else details) ∧
    (cs.detailedWatchers.Nodup → (cs.recordDetailed cw details).detailedWatchers.Nodup) ∧
    ∀ w, w ∈ (cs.recordDetailed cw details).detailedWatchers ↔
      w ∈ cs.detailedWatchers ∨ w ∈ cw.detailedWatchers := by
  unfold recordDetailed RawCollectionWatchers.hasDetailedWatchers
  by_cases none : cw.detailedWatchers = []
  · simp [none]
  · obtain ⟨changes, nodup, mem⟩ := foldl_addDetailedWatcher cw.detailedWatchers cs
    simp only [List.isEmpty_eq_false_iff.mpr none, Bool.not_false, if_true, if_neg none,
      foldl_registerDetailedChange]
    exact ⟨by rw [registerDetailedChangesForWatchers, changes], nodup, mem⟩

end ChangeSet

namespace Watching

variable {Q O : Type}

/-- The detailed watchers of a collection. -/
def detailed (s : Watching Q) (c : Nat) : List DetailedWatcher :=
  match s.collections[c]? with
  | some cw => cw.detailedWatchers
  | none => []

/-- The changes that a call records for a watcher: those of its collection. -/
def recordedFor (s : Watching Q) (w : DetailedWatcher) : WatchCall Q O → List ChangeDetail
  | .recordDetailed c details => if w ∈ s.detailed c then details else []
  | _ => []

/-- The changes recorded for a watcher in a run, in order. -/
def expectedDetails (isMatch : Q → Int64 → O → Bool) (w : DetailedWatcher) (s : Watching Q) :
    List (WatchCall Q O) → List ChangeDetail
  | [] => []
  | call :: calls => s.recordedFor w call ++ expectedDetails isMatch w (s.step isMatch call) calls

/-- Changes are recorded only if every watcher of the transaction watches their collection, and
watchers are added only if there are no changes yet. -/
def Separates (s : Watching Q) : WatchCall Q O → Prop
  | .recordDetailed c details =>
    (∀ w ∈ s.detailed c, w ∈ s.changeSet.detailedWatchers ∨ s.changeSet.detailedChanges = []) ∧
    (s.detailed c ≠ [] → details ≠ [] → ∀ w ∈ s.changeSet.detailedWatchers, w ∈ s.detailed c)
  | _ => True

/-- A call that separates the collections. -/
def Separating (isMatch : Q → Int64 → O → Bool) (s : Watching Q) (call : WatchCall Q O)
    (s' : Watching Q) : Prop :=
  s.Separates call ∧ s' = s.step isMatch call

variable {isMatch : Q → Int64 → O → Bool}

/-- What an operation adds to the changes that a watcher receives: exactly those recorded for it
just when the operation separates the collections. -/
theorem received_recordDetailed {s : Watching Q} {c : Nat} {details : List ChangeDetail}
    (nodup : s.changeSet.detailedWatchers.Nodup) :
    let s' := s.step isMatch (.recordDetailed c details)
    s'.changeSet.detailedWatchers.Nodup ∧
    ((∀ w, s'.changeSet.received w =
      s.changeSet.received w ++ if w ∈ s.detailed c then details else []) ↔
        s.Separates (.recordDetailed c details : WatchCall Q O)) := by
  cases found : s.collections[c]? with
  | none => simp [step, record, Separates, detailed, found, nodup]
  | some cw =>
    obtain ⟨changes, nodup', mem⟩ := s.changeSet.recordDetailed_spec cw details
    simp only [step, record, Separates, detailed, found]
    refine ⟨nodup' nodup, ?_⟩
    simp only [ChangeSet.received_eq nodup, ChangeSet.received_eq (nodup' nodup), changes, mem]
    constructor
    · intro receive
      constructor
      · intro w watches
        by_cases known : w ∈ s.changeSet.detailedWatchers
        · exact Or.inl known
        · have nonempty : cw.detailedWatchers ≠ [] := List.ne_nil_of_mem watches
          simpa [watches, known, nonempty] using receive w
      · intro nonempty some w known
        by_contra other
        have extra := receive w
        simp [known, other, nonempty, some] at extra
    · rintro ⟨added, separate⟩ w
      by_cases nonempty : cw.detailedWatchers = []
      · simp [nonempty]
      · by_cases watches : w ∈ cw.detailedWatchers
        · rcases added w watches with known | first
          · simp [watches, known, nonempty]
          · simp [watches, first, nonempty]
        · by_cases known : w ∈ s.changeSet.detailedWatchers
          · have nothing : details = [] := by
              by_contra some
              exact watches (separate nonempty some w known)
            simp [watches, known, nothing]
          · simp [watches, known]

/-- Two change sets with the same detailed changes and watchers. -/
def SameDetails (cs cs' : ChangeSet) : Prop :=
  cs'.detailedChanges = cs.detailedChanges ∧ cs'.detailedWatchers = cs.detailedWatchers

theorem SameDetails.record {s : Watching Q} (c : Nat)
    {change : ChangeSet → RawCollectionWatchers Q → ChangeSet}
    (same : ∀ cw, SameDetails s.changeSet (change s.changeSet cw)) :
    SameDetails s.changeSet (s.record c change).changeSet := by
  unfold Watching.record
  split
  · exact same _
  · exact ⟨rfl, rfl⟩

/-- Other calls leave the detailed changes and watchers of the change set alone. -/
theorem sameDetails_step {s : Watching Q} {call : WatchCall Q O}
    (other : ∀ c details, call ≠ .recordDetailed c details) :
    SameDetails s.changeSet (s.step isMatch call).changeSet := by
  have one : ∀ cs w, SameDetails s.changeSet cs → SameDetails s.changeSet (cs.insert w) :=
    fun _ _ same => same
  have start : SameDetails s.changeSet s.changeSet := ⟨rfl, rfl⟩
  cases call with
  | registerChange c id object =>
    exact .record c fun cw => ChangeSet.registerChange_induction one start cw id object
  | registerAll c => exact .record c fun cw => ChangeSet.registerAll_induction one start cw
  | recordDetailed c details => exact absurd rfl (other c details)
  | _ => exact start

theorem received_step {s s' : Watching Q} {call : WatchCall Q O}
    (nodup : s.changeSet.detailedWatchers.Nodup) (separating : Separating isMatch s call s') :
    s'.changeSet.detailedWatchers.Nodup ∧
    ∀ w, s'.changeSet.received w = s.changeSet.received w ++ s.recordedFor w call := by
  obtain ⟨separates, rfl⟩ := separating
  by_cases recorded : ∃ c details, call = .recordDetailed c details
  · obtain ⟨c, details, rfl⟩ := recorded
    have receive := @received_recordDetailed Q O isMatch s c details nodup
    exact ⟨receive.1, receive.2.mpr separates⟩
  · have other : ∀ c details, call ≠ .recordDetailed c details :=
      fun c details eq => recorded ⟨c, details, eq⟩
    obtain ⟨changes, watchers⟩ := @sameDetails_step Q O isMatch s call other
    have nothing : ∀ w, s.recordedFor w call = [] := by
      intro w
      cases call with
      | recordDetailed c details => exact absurd rfl (other c details)
      | _ => rfl
    rw [watchers]
    refine ⟨nodup, fun w => ?_⟩
    rw [nothing, List.append_nil, ChangeSet.received, ChangeSet.notifiedDetailed, changes, watchers]
    rfl

theorem received_run {s s' : Watching Q} {calls : List (WatchCall Q O)}
    (nodup : s.changeSet.detailedWatchers.Nodup) (run : Run (Separating isMatch) s calls s')
    (w : DetailedWatcher) :
    s'.changeSet.received w = s.changeSet.received w ++ s.expectedDetails isMatch w calls := by
  induction run with
  | nil => simp [expectedDetails]
  | cons one _ ih =>
    obtain ⟨nodup', receive⟩ := received_step nodup one
    rw [ih nodup', receive, expectedDetails, List.append_assoc, one.2]

/-- In a run of calls that separate the collections every detailed watcher receives exactly the
changes recorded for its collection while it was registered, each once and in order. -/
theorem received_own_changes (isMatch : Q → Int64 → O → Bool) (n : Nat)
    {calls : List (WatchCall Q O)} {s : Watching Q}
    (run : Run (Separating isMatch) (start n) calls s) (w : DetailedWatcher) :
    s.changeSet.received w = (start n).expectedDetails isMatch w calls :=
  received_run List.nodup_nil run w

/-- A change of one collection, watched in detail. -/
def someChange (collectionName : String) : ChangeDetail where
  changeType := .insert
  collectionName := collectionName
  objectId := 1
  fieldChanges := []
  fullDocument := "\x7b\x7d"

/-- Changes of two collections, the second of which nobody watches. -/
theorem watched_collection_receives :
    let isMatch : Unit → Int64 → Unit → Bool := fun _ _ _ => true
    let calls : List (WatchCall Unit Unit) :=
      [.watchDetailed 0, .watchDetailed 0, .recordDetailed 0 [someChange "a"],
        .recordDetailed 1 [someChange "b"], .recordDetailed 0 [someChange "c"]]
    let s := calls.foldl (step isMatch) (start 2)
    Run (Separating isMatch) (start 2) calls s ∧
      s.changeSet.received ⟨1⟩ = (start 2).expectedDetails isMatch ⟨1⟩ calls := by
  intro isMatch calls s
  have run : Run (Separating isMatch) (start 2) calls s := by
    refine .cons ⟨trivial, rfl⟩ (.cons ⟨trivial, rfl⟩ (.cons ⟨?_, rfl⟩ (.cons ⟨?_, rfl⟩
      (.cons ⟨?_, rfl⟩ .nil)))) <;> exact ⟨by decide, by decide⟩
  exact ⟨run, received_own_changes isMatch 2 run ⟨1⟩⟩

/-- A watcher of the first collection receives the change of the second. -/
theorem other_collection_received :
    let isMatch : Unit → Int64 → Unit → Bool := fun _ _ _ => true
    let calls : List (WatchCall Unit Unit) :=
      [.watchDetailed 0, .watchDetailed 1, .recordDetailed 0 [someChange "a"],
        .recordDetailed 1 [someChange "b"]]
    let s := calls.foldl (step isMatch) (start 2)
    s.changeSet.received ⟨0⟩ = [someChange "a", someChange "b"] ∧
      (start 2).expectedDetails isMatch ⟨0⟩ calls = [someChange "a"] := by
  decide

end Watching

end IsarPlus
