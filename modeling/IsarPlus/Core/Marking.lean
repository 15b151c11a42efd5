import IsarPlus.Core.Watcher

/-!
# What a recorded change marks

A change marks the watchers of a list up to the first that is already registered. It misses none
just when behind a registered watcher all others are registered too (`Gapless`).
-/

namespace IsarPlus

theorem Watcher.id_inj {w w' : Watcher} : w.id = w'.id ↔ w = w' := by
  cases w
  cases w'
  simp

/-! ## Marking one list -/

namespace ChangeSet

/-- The watcher will be notified. -/
def Registered (cs : ChangeSet) (w : Watcher) : Prop := w.id ∈ cs.changes

/-- Behind a registered watcher all watchers of the list are registered. -/
def Gapless (cs : ChangeSet) : List Watcher → Prop
  | [] => True
  | w :: ws => (cs.Registered w → ∀ w' ∈ ws, cs.Registered w') ∧ cs.Gapless ws

instance (cs : ChangeSet) (w : Watcher) : Decidable (cs.Registered w) :=
  inferInstanceAs (Decidable (w.id ∈ cs.changes))

instance decidableGapless (cs : ChangeSet) : (ws : List Watcher) → Decidable (cs.Gapless ws)
  | [] => .isTrue trivial
  | w :: ws =>
    have := decidableGapless cs ws
    inferInstanceAs (Decidable ((cs.Registered w → ∀ w' ∈ ws, cs.Registered w') ∧ cs.Gapless ws))

@[simp] theorem registered_insert {cs : ChangeSet} {w w' : Watcher} :
    (cs.insert w).Registered w' ↔ w' = w ∨ cs.Registered w' := by
  simp only [Registered, insert, AList.mem_insert, Watcher.id_inj]

theorem gapless_congr {cs cs' : ChangeSet} {ws : List Watcher}
    (same : ∀ w ∈ ws, cs.Registered w ↔ cs'.Registered w) : cs.Gapless ws ↔ cs'.Gapless ws := by
  induction ws with
  | nil => rfl
  | cons w ws ih =>
    have tail : ∀ w' ∈ ws, cs.Registered w' ↔ cs'.Registered w' :=
      fun w' mem => same w' (List.mem_cons_of_mem _ mem)
    simp only [Gapless, ih tail, same w List.mem_cons_self]
    constructor
    · intro h
      exact ⟨fun reg w' mem => (tail w' mem).mp (h.1 reg w' mem), h.2⟩
    · intro h
      exact ⟨fun reg w' mem => (tail w' mem).mpr (h.1 reg w' mem), h.2⟩

/-- The marks of a list without gaps. -/
theorem registered_markWatchersChanged {cs : ChangeSet} {ws : List Watcher} (nodup : ws.Nodup)
    (gapless : cs.Gapless ws) (w : Watcher) :
    (cs.markWatchersChanged ws).Registered w ↔ cs.Registered w ∨ w ∈ ws := by
  induction ws generalizing cs with
  | nil => simp [markWatchersChanged]
  | cons head ws ih =>
    obtain ⟨fresh, nodup⟩ := List.nodup_cons.mp nodup
    obtain ⟨behind, gapless⟩ := gapless
    unfold markWatchersChanged
    split
    · rename_i registered
      have all : w ∈ head :: ws → cs.Registered w := by
        intro mem
        rcases List.mem_cons.mp mem with rfl | mem
        · exact registered
        · exact behind registered w mem
      exact ⟨Or.inl, fun h => h.elim id all⟩
    · have same : ∀ w' ∈ ws, cs.Registered w' ↔ (cs.insert head).Registered w' := by
        intro w' mem
        have other : w' ≠ head := fun eq => fresh (eq ▸ mem)
        simp [other]
      rw [ih nodup ((gapless_congr same).mp gapless), registered_insert, List.mem_cons]
      tauto

theorem gapless_of_registered {cs : ChangeSet} {ws : List Watcher}
    (all : ∀ w ∈ ws, cs.Registered w) : cs.Gapless ws := by
  induction ws with
  | nil => trivial
  | cons w ws ih =>
    have tail : ∀ w ∈ ws, cs.Registered w := fun w mem => all w (List.mem_cons_of_mem _ mem)
    exact ⟨fun _ => tail, ih tail⟩

/-- The marks of several lists, one after the other. -/
theorem registered_foldl_mark {cs : ChangeSet} {lists : List (List Watcher)}
    (nodup : lists.flatten.Nodup) (gapless : ∀ ws ∈ lists, cs.Gapless ws) (w : Watcher) :
    (lists.foldl markWatchersChanged cs).Registered w ↔ cs.Registered w ∨ ∃ ws ∈ lists, w ∈ ws := by
  induction lists generalizing cs with
  | nil => simp
  | cons ws lists ih =>
    rw [List.flatten_cons, List.nodup_append'] at nodup
    obtain ⟨nodupHead, nodupTail, disjoint⟩ := nodup
    have head := registered_markWatchersChanged nodupHead (gapless ws List.mem_cons_self)
    have gapless' : ∀ ws' ∈ lists, (cs.markWatchersChanged ws).Gapless ws' := by
      intro ws' mem
      refine (gapless_congr fun w' mem' => ?_).mp (gapless ws' (List.mem_cons_of_mem _ mem))
      have other : w' ∉ ws := fun mem'' => disjoint mem'' (List.mem_flatten.mpr ⟨ws', mem, mem'⟩)
      rw [head, or_iff_left other]
    rw [List.foldl_cons, ih nodupTail gapless', head]
    simp only [List.mem_cons, exists_eq_or_imp]
    tauto

variable {Q O : Type} {isMatch : Q → Int64 → O → Bool}

theorem registered_markQueryWatchers {cs : ChangeSet} {queryWatchers : List (Q × Watcher)}
    {id : Int64} {object : O} (w : Watcher) :
    (cs.markQueryWatchers isMatch queryWatchers id object).Registered w ↔
      cs.Registered w ∨ ∃ q, (q, w) ∈ queryWatchers ∧ isMatch q id object = true := by
  unfold markQueryWatchers
  induction queryWatchers generalizing cs with
  | nil => simp
  | cons qw queryWatchers ih =>
    obtain ⟨q, w'⟩ := qw
    rw [List.foldl_cons, ih]
    simp only [List.mem_cons, Prod.mk.injEq]
    split
    · rename_i marked
      rw [registered_insert]
      constructor
      · rintro ((rfl | registered) | ⟨q', mem, isMatch⟩)
        · exact Or.inr ⟨q, Or.inl ⟨rfl, rfl⟩, marked.2⟩
        · exact Or.inl registered
        · exact Or.inr ⟨q', Or.inr mem, isMatch⟩
      · rintro (registered | ⟨q', ⟨-, rfl⟩ | mem, isMatch⟩)
        · exact Or.inl (Or.inr registered)
        · exact Or.inl (Or.inl rfl)
        · exact Or.inr ⟨q', mem, isMatch⟩
    · rename_i unmarked
      constructor
      · rintro (registered | ⟨q', mem, isMatch⟩)
        · exact Or.inl registered
        · exact Or.inr ⟨q', Or.inr mem, isMatch⟩
      · rintro (registered | ⟨q', ⟨rfl, rfl⟩ | mem, isMatch⟩)
        · exact Or.inl registered
        · refine Or.inl ?_
          by_contra unregistered
          exact unmarked ⟨unregistered, isMatch⟩
        · exact Or.inr ⟨q', mem, isMatch⟩

/-! ## Marking in general -/

variable {P : ChangeSet → Prop}

/-- What every single mark preserves. -/
theorem markWatchersChanged_induction (one : ∀ cs w, P cs → P (cs.insert w)) {cs : ChangeSet}
    (start : P cs) (ws : List Watcher) : P (cs.markWatchersChanged ws) := by
  induction ws generalizing cs with
  | nil => exact start
  | cons w ws ih =>
    unfold markWatchersChanged
    split
    · exact start
    · exact ih (one cs w start)

theorem markQueryWatchers_induction (one : ∀ cs w, P cs → P (cs.insert w)) {cs : ChangeSet}
    (start : P cs) (queryWatchers : List (Q × Watcher)) (id : Int64) (object : O) :
    P (cs.markQueryWatchers isMatch queryWatchers id object) := by
  refine List.foldlRecOn queryWatchers _ start ?_
  intro cs holds qw _
  split
  · exact one cs qw.2 holds
  · exact holds

theorem registerAll_induction (one : ∀ cs w, P cs → P (cs.insert w)) {cs : ChangeSet}
    (start : P cs) (cw : RawCollectionWatchers Q) : P (cs.registerAll cw) := by
  have marked := markWatchersChanged_induction one start cw.watchers
  have marked' : P (cw.objectWatchers.entries.foldl
      (fun cs entry => cs.markWatchersChanged entry.2) (cs.markWatchersChanged cw.watchers)) :=
    List.foldlRecOn _ _ marked fun cs holds entry _ =>
      markWatchersChanged_induction one holds entry.2
  exact List.foldlRecOn _ _ marked' fun cs holds qw _ => one cs qw.2 holds

/-- Every mark is kept under the id of its watcher. -/
def Keyed (cs : ChangeSet) : Prop := ∀ entry ∈ cs.changes.entries, entry.2.id = entry.1

theorem keyed_insert (cs : ChangeSet) (w : Watcher) (keyed : cs.Keyed) : (cs.insert w).Keyed := by
  intro entry mem
  simp only [insert, AList.entries_insert, List.mem_cons] at mem
  rcases mem with rfl | mem
  · rfl
  · exact keyed entry ((List.kerase_sublist w.id cs.changes.entries).subset mem)

/-- A watcher is notified once if it is registered, and otherwise not. -/
theorem Keyed.notified {cs : ChangeSet} (keyed : cs.Keyed) :
    cs.notified.Nodup ∧ ∀ w, w ∈ cs.notified ↔ cs.Registered w := by
  have ids : cs.notified.map Watcher.id = cs.changes.keys := by
    simp only [ChangeSet.notified, AList.keys, List.keys, List.map_map]
    exact List.map_congr_left keyed
  constructor
  · apply List.Nodup.of_map Watcher.id
    rw [ids]
    exact cs.changes.keys_nodup
  · intro w
    show _ ↔ w.id ∈ cs.changes.keys
    rw [← ids, List.mem_map]
    constructor
    · intro mem
      exact ⟨w, mem, rfl⟩
    · rintro ⟨w', mem, same⟩
      exact Watcher.id_inj.mp same ▸ mem

/-- Detailed changes mark no simple watcher. -/
theorem changes_recordDetailed (cs : ChangeSet) (cw : RawCollectionWatchers Q)
    (details : List ChangeDetail) : (cs.recordDetailed cw details).changes = cs.changes := by
  unfold recordDetailed
  split
  · have watchers : (cs.registerDetailedChangesForWatchers cw).changes = cs.changes := by
      refine List.foldlRecOn (motive := fun cs' : ChangeSet => cs'.changes = cs.changes) _ _ rfl ?_
      intro cs' same watcher _
      unfold addDetailedWatcher
      split <;> exact same
    refine List.foldlRecOn (motive := fun cs' : ChangeSet => cs'.changes = cs.changes) _ _ watchers ?_
    intro cs' same detail _
    exact same
  · rfl

theorem registered_foldl_insert {cs : ChangeSet} {queryWatchers : List (Q × Watcher)}
    (w : Watcher) :
    (queryWatchers.foldl (fun cs qw => cs.insert qw.2) cs).Registered w ↔
      cs.Registered w ∨ w ∈ queryWatchers.map Prod.snd := by
  induction queryWatchers generalizing cs with
  | nil => simp
  | cons qw queryWatchers ih =>
    rw [List.foldl_cons, ih, registered_insert, List.map_cons, List.mem_cons]
    tauto

end ChangeSet

/-! ## The lists of watchers -/

/-- The lists of simple watchers that a collection keeps. -/
inductive WatchList where
  | all
  | object (id : UInt64)
  | query
  deriving DecidableEq

variable {Q O : Type}

namespace RawCollectionWatchers

def list (cw : RawCollectionWatchers Q) : WatchList → List Watcher
  | .all => cw.watchers
  | .object id => (cw.objectWatchers.lookup id).getD []
  | .query => cw.queryWatchers.map Prod.snd

/-- The new watcher goes to the end of one of the lists, if any. -/
def Appends (add : UInt64 → RawCollectionWatchers Q → RawCollectionWatchers Q)
    (place : Option WatchList) : Prop :=
  ∀ id cw l, (add id cw).list l = cw.list l ++ if some l = place then [Watcher.mk id] else []

theorem appends_watch :
    Appends (fun id (cw : RawCollectionWatchers Q) => cw.watch id) (some .all) := by
  intro id cw l
  cases l <;> simp [list, watch]

theorem appends_watchObject (object : Int64) :
    Appends (fun id (cw : RawCollectionWatchers Q) => cw.watchObject object id)
      (some (.object object.toUInt64)) := by
  intro id cw l
  cases l with
  | object key =>
    by_cases same : key = object.toUInt64
    · subst same
      cases found : cw.objectWatchers.lookup object.toUInt64 <;> simp [list, watchObject, found]
    · cases found : cw.objectWatchers.lookup object.toUInt64 <;>
        simp [list, watchObject, found, AList.lookup_insert_ne same, same]
  | _ => cases found : cw.objectWatchers.lookup object.toUInt64 <;> simp [list, watchObject, found]

theorem appends_watchQuery (query : Q) :
    Appends (fun id cw => cw.watchQuery query id) (some .query) := by
  intro id cw l
  cases l <;> simp [list, watchQuery]

theorem appends_watchDetailed :
    Appends (fun id (cw : RawCollectionWatchers Q) => cw.watchDetailed id) none := by
  intro id cw l
  cases l <;> simp [list, watchDetailed]

/-- Stopping a handle only removes watchers. -/
theorem list_stop (cw : RawCollectionWatchers Q) (handle : WatchHandle) (l : WatchList) :
    ((cw.stop handle).list l).Sublist (cw.list l) := by
  cases handle with
  | collection id =>
    cases l with
    | all => exact List.filter_sublist
    | _ => exact List.Sublist.refl _
  | object object id =>
    cases found : cw.objectWatchers.lookup object.toUInt64 with
    | none => simp [stop, found]
    | some watchers =>
      cases l with
      | object key =>
        by_cases same : key = object.toUInt64
        · subst same
          simp [list, stop, found]
        · simp [list, stop, found, AList.lookup_insert_ne same]
      | _ => simp [list, stop, found]
  | query id =>
    cases l with
    | query => exact List.filter_sublist.map Prod.snd
    | _ => exact List.Sublist.refl _
  | detailed id => cases l <;> exact List.Sublist.refl _

end RawCollectionWatchers

/-- The object watchers of a collection are the lists of its ids. -/
theorem RawCollectionWatchers.mem_objectWatchers {cw : RawCollectionWatchers Q}
    {entry : Sigma fun _ : UInt64 => List Watcher} (mem : entry ∈ cw.objectWatchers.entries) :
    entry.2 = cw.list (.object entry.1) := by
  have found : cw.objectWatchers.lookup entry.1 = some entry.2 := AList.mem_lookup_iff.mpr mem
  simp [list, found]

theorem RawCollectionWatchers.exists_objectWatchers {cw : RawCollectionWatchers Q} {id : UInt64}
    {w : Watcher} (mem : w ∈ cw.list (.object id)) :
    ∃ entry ∈ cw.objectWatchers.entries, w ∈ entry.2 := by
  cases found : cw.objectWatchers.lookup id with
  | none => simp [list, found] at mem
  | some watchers =>
    have mem : w ∈ watchers := by simpa [list, found] using mem
    exact ⟨⟨id, watchers⟩, AList.mem_lookup_iff.mp found, mem⟩

/-! ## Recorded changes -/

namespace ChangeSet

variable {isMatch : Q → Int64 → O → Bool} {cw : RawCollectionWatchers Q}

/-- No watcher is in two places of a collection. -/
structure Apart (cw : RawCollectionWatchers Q) : Prop where
  nodup : ∀ l, (cw.list l).Nodup
  apart : ∀ {l l' w}, w ∈ cw.list l → w ∈ cw.list l' → l = l'

theorem gapless_mark {cs : ChangeSet} {ws ws' : List Watcher} (nodup : ws.Nodup)
    (gapless : cs.Gapless ws) (gapless' : cs.Gapless ws') (apart : ∀ w ∈ ws', w ∉ ws) :
    (cs.markWatchersChanged ws).Gapless ws' := by
  refine (gapless_congr fun w mem => ?_).mp gapless'
  rw [registered_markWatchersChanged nodup gapless, or_iff_left (apart w mem)]

/-- The marks of `register_change`, list by list. -/
theorem registerChange_eq (cs : ChangeSet) (cw : RawCollectionWatchers Q) (id : Int64)
    (object : O) :
    cs.registerChange isMatch cw id object =
      ((cs.markWatchersChanged (cw.list .all)).markWatchersChanged
        (cw.list (.object id.toUInt64))).markQueryWatchers isMatch cw.queryWatchers id object := by
  unfold registerChange
  cases found : cw.objectWatchers.lookup id.toUInt64 with
  | none => simp [RawCollectionWatchers.list, found, markWatchersChanged]
  | some watchers => simp [RawCollectionWatchers.list, found]

theorem registerChange_induction {P : ChangeSet → Prop} (one : ∀ cs w, P cs → P (cs.insert w))
    {cs : ChangeSet} (start : P cs) (cw : RawCollectionWatchers Q) (id : Int64) (object : O) :
    P (cs.registerChange isMatch cw id object) := by
  rw [registerChange_eq]
  have marked := markWatchersChanged_induction one start (cw.list .all)
  have marked' := markWatchersChanged_induction one marked (cw.list (.object id.toUInt64))
  exact markQueryWatchers_induction one marked' cw.queryWatchers id object

theorem registered_registerChange {cs : ChangeSet} {id : Int64} {object : O} (apart : Apart cw)
    (all : cs.Gapless (cw.list .all)) (one : cs.Gapless (cw.list (.object id.toUInt64)))
    (w : Watcher) :
    (cs.registerChange isMatch cw id object).Registered w ↔
      cs.Registered w ∨ w ∈ cw.list .all ∨ w ∈ cw.list (.object id.toUInt64) ∨
        ∃ q, (q, w) ∈ cw.queryWatchers ∧ isMatch q id object = true := by
  have one' := gapless_mark (apart.nodup .all) all one fun w mem mem' => by
    cases apart.apart mem mem'
  have marked := registered_markWatchersChanged (apart.nodup _) one' w
  rw [registered_markWatchersChanged (apart.nodup _) all] at marked
  rw [registerChange_eq, registered_markQueryWatchers, marked]
  tauto

/-- The marks of `register_all`, list by list. -/
theorem registerAll_eq (cs : ChangeSet) (cw : RawCollectionWatchers Q) :
    cs.registerAll cw = cw.queryWatchers.foldl (fun cs qw => cs.insert qw.2)
      ((cw.objectWatchers.entries.map fun entry => entry.2).foldl markWatchersChanged
        (cs.markWatchersChanged (cw.list .all))) := by
  rw [List.foldl_map]
  rfl

theorem registered_registerAll {cs : ChangeSet} (apart : Apart cw)
    (all : cs.Gapless (cw.list .all)) (objects : ∀ id, cs.Gapless (cw.list (.object id)))
    (w : Watcher) :
    (cs.registerAll cw).Registered w ↔ cs.Registered w ∨ ∃ l, w ∈ cw.list l := by
  have nodup : (cw.objectWatchers.entries.map fun entry => entry.2).flatten.Nodup := by
    rw [List.nodup_flatten]
    constructor
    · intro ws mem
      obtain ⟨entry, stored, rfl⟩ := List.mem_map.mp mem
      exact RawCollectionWatchers.mem_objectWatchers stored ▸ apart.nodup _
    · rw [List.pairwise_map]
      have keys := List.nodupKeys_iff_pairwise.mp cw.objectWatchers.nodupKeys
      refine keys.imp_of_mem fun mem mem' other => ?_
      rw [RawCollectionWatchers.mem_objectWatchers mem,
        RawCollectionWatchers.mem_objectWatchers mem']
      intro w at_one at_other
      exact other (WatchList.object.inj (apart.apart at_one at_other))
  have objects' : ∀ ws ∈ cw.objectWatchers.entries.map fun entry => entry.2,
      (cs.markWatchersChanged (cw.list .all)).Gapless ws := by
    intro ws mem
    obtain ⟨entry, stored, rfl⟩ := List.mem_map.mp mem
    rw [RawCollectionWatchers.mem_objectWatchers stored]
    refine gapless_mark (apart.nodup .all) all (objects _) fun w mem mem' => ?_
    cases apart.apart mem mem'
  have marked := registered_foldl_mark nodup objects' w
  rw [registered_markWatchersChanged (apart.nodup _) all] at marked
  rw [registerAll_eq, registered_foldl_insert, marked]
  constructor
  · rintro (((registered | mem) | ⟨ws, mem, at_object⟩) | mem)
    · exact Or.inl registered
    · exact Or.inr ⟨.all, mem⟩
    · obtain ⟨entry, stored, rfl⟩ := List.mem_map.mp mem
      exact Or.inr ⟨.object entry.1, RawCollectionWatchers.mem_objectWatchers stored ▸ at_object⟩
    · exact Or.inr ⟨.query, mem⟩
  · rintro (registered | ⟨l, mem⟩)
    · exact Or.inl (Or.inl (Or.inl registered))
    · cases l with
      | all => exact Or.inl (Or.inl (Or.inr mem))
      | object id =>
        obtain ⟨entry, stored, at_object⟩ := RawCollectionWatchers.exists_objectWatchers mem
        exact Or.inl (Or.inr ⟨entry.2, List.mem_map.mpr ⟨entry, stored, rfl⟩, at_object⟩)
      | query => exact Or.inr mem

end ChangeSet

end IsarPlus
