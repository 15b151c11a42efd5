import IsarPlus.Core.Marking
import IsarPlus.Native.Query

/-!
# Watchers of the native engine

`NativeQuery::matches` (`native/query/mod.rs:133-139`) and what the change set of a native
transaction makes of the changes that the operations log.
-/

namespace IsarPlus.Native
open ByteBuffer

variable (toLowercase : List Char → List Char)

/-- `matches` on the object that `register_change` is given, by its bytes: of a watched query only
the filter counts. -/
def NativeQuery.isMatch (q : NativeQuery) (id : Int64) (bytes : Bytes) : Bool :=
  match IsarDeserializer.fromBytes bytes with
  | some object => q.filter.evaluate toLowercase id object == some true
  | none => false

/-- One logged change, told to the change set with the watchers of its collection. -/
def Change.record (watchers : String → RawCollectionWatchers NativeQuery) (cs : ChangeSet) :
    Change → ChangeSet
  | .object collection id bytes =>
    cs.registerChange (NativeQuery.isMatch toLowercase) (watchers collection) id bytes
  | .detailed _ _ _ _ => cs
  | .all collection => cs.registerAll (watchers collection)

namespace NativeTxn

/-- The change set at the commit. -/
def changes (txn : NativeTxn) (watchers : String → RawCollectionWatchers NativeQuery) :
    ChangeSet :=
  txn.changeSet.foldl (Change.record toLowercase watchers) .new

/-- A new transaction on what this one has committed. -/
def begin (txn : NativeTxn) : NativeTxn := { txn with changeSet := [] }

end NativeTxn

end IsarPlus.Native
