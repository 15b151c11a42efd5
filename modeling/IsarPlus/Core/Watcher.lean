import Mathlib.Data.List.AList

/-!
# Watchers

`isar_core/src/core/watcher.rs`: the watchers of every collection and the change set of one
transaction. A callback is known by the id of its watcher. `WATCHER_ID`, the watchers of all
collections and the change set of the open transaction form the state.
-/

namespace IsarPlus

/-- `IntMap`; nothing here depends on the order of its iteration. -/
abbrev IntMap (V : Type) := AList fun _ : UInt64 => V

structure Watcher where
  id : UInt64
  deriving DecidableEq, Repr

structure DetailedWatcher where
  id : UInt64
  deriving DecidableEq, Repr

inductive ChangeType where
  | insert | update | delete
  deriving DecidableEq, Repr

structure FieldChange where
  fieldName : String
  oldValue : Option String
  newValue : Option String
  deriving DecidableEq, Repr

structure ChangeDetail where
  changeType : ChangeType
  collectionName : String
  objectId : Int64
  fieldChanges : List FieldChange
  fullDocument : String
  deriving DecidableEq, Repr

/-! ## The watchers of a collection -/

/-- `RawCollectionWatchers` (`watcher.rs:209-214`). -/
structure RawCollectionWatchers (Q : Type) where
  watchers : List Watcher
  objectWatchers : IntMap (List Watcher)
  queryWatchers : List (Q × Watcher)
  detailedWatchers : List DetailedWatcher

namespace RawCollectionWatchers

variable {Q : Type}

/-- `CollectionWatchers::new` (`watcher.rs:221-232`). -/
def new : RawCollectionWatchers Q where
  watchers := []
  objectWatchers := ∅
  queryWatchers := []
  detailedWatchers := []

def watch (cw : RawCollectionWatchers Q) (id : UInt64) : RawCollectionWatchers Q :=
  { cw with watchers := cw.watchers ++ [⟨id⟩] }

/-- `watch_object` (`watcher.rs:254-276`). -/
def watchObject (cw : RawCollectionWatchers Q) (object : Int64) (id : UInt64) :
    RawCollectionWatchers Q :=
  match cw.objectWatchers.lookup object.toUInt64 with
  | some watchers =>
    { cw with objectWatchers := cw.objectWatchers.insert object.toUInt64 (watchers ++ [⟨id⟩]) }
  | none => { cw with objectWatchers := cw.objectWatchers.insert object.toUInt64 [⟨id⟩] }

def watchQuery (cw : RawCollectionWatchers Q) (query : Q) (id : UInt64) :
    RawCollectionWatchers Q :=
  { cw with queryWatchers := cw.queryWatchers ++ [(query, ⟨id⟩)] }

def watchDetailed (cw : RawCollectionWatchers Q) (id : UInt64) : RawCollectionWatchers Q :=
  { cw with detailedWatchers := cw.detailedWatchers ++ [⟨id⟩] }

def hasDetailedWatchers (cw : RawCollectionWatchers Q) : Bool := !cw.detailedWatchers.isEmpty

/-- `has_watchers` (`watcher.rs:332-335`); a list of object watchers counts even when it is empty. -/
def hasWatchers (cw : RawCollectionWatchers Q) : Bool :=
  !cw.watchers.isEmpty || !cw.objectWatchers.entries.isEmpty || !cw.queryWatchers.isEmpty

end RawCollectionWatchers

/-- `WatchHandle`: what its stop callback removes. -/
inductive WatchHandle where
  | collection (id : UInt64)
  | object (object : Int64) (id : UInt64)
  | query (id : UInt64)
  | detailed (id : UInt64)

/-- `stop` (`watcher.rs:244-251`, `:269-275`, `:291-297`, `:318-324`). -/
def RawCollectionWatchers.stop {Q : Type} (cw : RawCollectionWatchers Q) :
    WatchHandle → RawCollectionWatchers Q
  | .collection id => { cw with watchers := cw.watchers.filter fun w => w.id ≠ id }
  | .object object id =>
    match cw.objectWatchers.lookup object.toUInt64 with
    | some watchers =>
      let watchers := watchers.filter fun w => w.id ≠ id
      { cw with objectWatchers := cw.objectWatchers.insert object.toUInt64 watchers }
    | none => cw
  | .query id => { cw with queryWatchers := cw.queryWatchers.filter fun qw => qw.2.id ≠ id }
  | .detailed id =>
    { cw with detailedWatchers := cw.detailedWatchers.filter fun w => w.id ≠ id }

/-! ## The change set of a transaction -/

/-- `ChangeSet` (`watcher.rs:103-107`). -/
structure ChangeSet where
  changes : IntMap Watcher
  detailedChanges : List ChangeDetail
  detailedWatchers : List DetailedWatcher

namespace ChangeSet

def new : ChangeSet where
  changes := ∅
  detailedChanges := []
  detailedWatchers := []

/-- `changes.insert(w.get_id(), w)`. -/
def insert (cs : ChangeSet) (w : Watcher) : ChangeSet :=
  { cs with changes := cs.changes.insert w.id w }

/-- `mark_watchers_changed` (`watcher.rs:148-157`) stops at the first registered watcher. -/
def markWatchersChanged (cs : ChangeSet) : List Watcher → ChangeSet
  | [] => cs
  | w :: ws => if w.id ∈ cs.changes then cs else (cs.insert w).markWatchersChanged ws

variable {Q O : Type} (isMatch : Q → Int64 → O → Bool)

/-- The loop over the query watchers in `register_change`. -/
def markQueryWatchers (cs : ChangeSet) (queryWatchers : List (Q × Watcher)) (id : Int64)
    (object : O) : ChangeSet :=
  queryWatchers.foldl
    (fun cs qw => if qw.2.id ∉ cs.changes ∧ isMatch qw.1 id object then cs.insert qw.2 else cs) cs

/-- `register_change` (`watcher.rs:159-177`); `isMatch` is `QueryMatches::matches`. -/
def registerChange (cs : ChangeSet) (cw : RawCollectionWatchers Q) (id : Int64) (object : O) :
    ChangeSet :=
  let cs := cs.markWatchersChanged cw.watchers
  let cs := match cw.objectWatchers.lookup id.toUInt64 with
    | some objectWatchers => cs.markWatchersChanged objectWatchers
    | none => cs
  cs.markQueryWatchers isMatch cw.queryWatchers id object

/-- `register_all` (`watcher.rs:179-188`). -/
def registerAll (cs : ChangeSet) (cw : RawCollectionWatchers Q) : ChangeSet :=
  let cs := cs.markWatchersChanged cw.watchers
  let cs := cw.objectWatchers.entries.foldl (fun cs entry => cs.markWatchersChanged entry.2) cs
  cw.queryWatchers.foldl (fun cs qw => cs.insert qw.2) cs

/-- `register_detailed_change` (`watcher.rs:133-135`). -/
def registerDetailedChange (cs : ChangeSet) (change : ChangeDetail) : ChangeSet :=
  { cs with detailedChanges := cs.detailedChanges ++ [change] }

/-- The step of the loop in `register_detailed_changes_for_watchers`. -/
def addDetailedWatcher (cs : ChangeSet) (watcher : DetailedWatcher) : ChangeSet :=
  if cs.detailedWatchers.any fun existing => existing.id = watcher.id then cs
  else { cs with detailedWatchers := cs.detailedWatchers ++ [watcher] }

/-- `register_detailed_changes_for_watchers` (`watcher.rs:137-146`). -/
def registerDetailedChangesForWatchers (cs : ChangeSet) (cw : RawCollectionWatchers Q) :
    ChangeSet :=
  cw.detailedWatchers.foldl addDetailedWatcher cs

/-- What `put`, `delete` and `clear` do for detailed watchers (`native_collection.rs:171-188`,
`:216-231`, `:327-347`), with the changes that `ChangeDetector` finds. -/
def recordDetailed (cs : ChangeSet) (cw : RawCollectionWatchers Q) (details : List ChangeDetail) :
    ChangeSet :=
  if cw.hasDetailedWatchers then
    details.foldl registerDetailedChange (cs.registerDetailedChangesForWatchers cw)
  else cs

/-- The calls of `notify_watchers` (`watcher.rs:190-205`) to simple watchers. -/
def notified (cs : ChangeSet) : List Watcher := cs.changes.entries.map fun entry => entry.2

/-- The calls of `notify_watchers` to detailed watchers, one change after the other. -/
def notifiedDetailed (cs : ChangeSet) : List (DetailedWatcher × ChangeDetail) :=
  cs.detailedChanges.flatMap fun change => cs.detailedWatchers.map fun watcher => (watcher, change)

end ChangeSet

/-! ## Watching during a transaction -/

/-- `WATCHER_ID`, the watchers of the collections by their index, and the change set of the open
transaction. -/
structure Watching (Q : Type) where
  watcherId : UInt64
  collections : List (RawCollectionWatchers Q)
  changeSet : ChangeSet

/-- The calls that watchers, and the operations of the transaction, make. -/
inductive WatchCall (Q O : Type) where
  | watch (collection : Nat)
  | watchObject (collection : Nat) (object : Int64)
  | watchQuery (collection : Nat) (query : Q)
  | watchDetailed (collection : Nat)
  | stop (collection : Nat) (handle : WatchHandle)
  | registerChange (collection : Nat) (id : Int64) (object : O)
  | registerAll (collection : Nat)
  | recordDetailed (collection : Nat) (details : List ChangeDetail)

namespace Watching

variable {Q O : Type}

/-- `n` collections without watchers and a new transaction. -/
def start (n : Nat) : Watching Q where
  watcherId := 0
  collections := .replicate n .new
  changeSet := .new

/-- A new watcher takes the next id. -/
def register (s : Watching Q) (collection : Nat)
    (add : UInt64 → RawCollectionWatchers Q → RawCollectionWatchers Q) : Watching Q :=
  { s with
    watcherId := s.watcherId + 1
    collections := s.collections.modify collection (add s.watcherId) }

/-- What an operation on a collection records. -/
def record (s : Watching Q) (collection : Nat)
    (change : ChangeSet → RawCollectionWatchers Q → ChangeSet) : Watching Q :=
  match s.collections[collection]? with
  | some cw => { s with changeSet := change s.changeSet cw }
  | none => s

def step (isMatch : Q → Int64 → O → Bool) (s : Watching Q) : WatchCall Q O → Watching Q
  | .watch collection => s.register collection fun id cw => cw.watch id
  | .watchObject collection object => s.register collection fun id cw => cw.watchObject object id
  | .watchQuery collection query => s.register collection fun id cw => cw.watchQuery query id
  | .watchDetailed collection => s.register collection fun id cw => cw.watchDetailed id
  | .stop collection handle =>
    { s with collections := s.collections.modify collection fun cw => cw.stop handle }
  | .registerChange collection id object =>
    s.record collection fun cs cw => cs.registerChange isMatch cw id object
  | .registerAll collection => s.record collection fun cs cw => cs.registerAll cw
  | .recordDetailed collection details =>
    s.record collection fun cs cw => cs.recordDetailed cw details

end Watching

end IsarPlus
