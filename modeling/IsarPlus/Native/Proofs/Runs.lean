import IsarPlus.Native.Proofs.Entries

/-!
# Runs and their invariants

Every operation that changes objects is a sequence of puts, deletes and clears. What these three
preserve holds after every run; a condition on the puts of a run is `Meets`.
-/

namespace IsarPlus.Native
open ByteBuffer OrderedStore SecondaryIndex

variable {xxh3_64 : Bytes → UInt64}

namespace NativeCollection

/-- The puts that updating `ids` one after the other leads to meet the condition, each in the state
it finds. -/
def MeetsUpdates (xxh3_64 : Bytes → UInt64) (c : NativeCollection)
    (condition : NativeTxn → Int64 → Bytes → Prop) (updates : List (UInt16 × Option IsarValue)) :
    NativeTxn → List Int64 → Prop
  | _, [] => True
  | txn, id :: ids =>
    (∀ old new, c.objects txn id = some old → c.updateObject old updates = .ok new →
      condition txn id new) ∧
    ∀ txn' found, c.update xxh3_64 txn id updates = .ok (txn', found) →
      MeetsUpdates xxh3_64 c condition updates txn' ids

/-- The puts of one operation meet the condition. -/
def MeetsOperation (xxh3_64 : Bytes → UInt64) (c : NativeCollection)
    (condition : NativeTxn → Int64 → Bytes → Prop) (txn : NativeTxn) : Operation → Prop
  | .save id object => condition txn id object
  | .update id updates => c.MeetsUpdates xxh3_64 condition updates txn [id]
  | .queryUpdate ids updates => c.MeetsUpdates xxh3_64 condition updates txn ids
  | .delete _ | .clear | .queryDelete _ => True

/-- All puts of a run meet the condition. -/
def Meets (xxh3_64 : Bytes → UInt64) (c : NativeCollection)
    (condition : NativeTxn → Int64 → Bytes → Prop) : NativeTxn → List Operation → Prop
  | _, [] => True
  | txn, operation :: operations =>
    c.MeetsOperation xxh3_64 condition txn operation ∧
    ∀ txn', c.perform xxh3_64 txn operation = .ok txn' →
      Meets xxh3_64 c condition txn' operations

section
variable {c : NativeCollection} {condition : NativeTxn → Int64 → Bytes → Prop}
  [∀ txn id bytes, Decidable (condition txn id bytes)]

instance decidableForallOk {α : Type} (x : Result α) (P : α → Prop) [∀ a, Decidable (P a)] :
    Decidable (∀ a, x = .ok a → P a) :=
  match x with
  | .ok a => decidable_of_iff (P a) ⟨fun holds _ eq => Except.ok.inj eq ▸ holds, fun all => all a rfl⟩
  | .error _ => isTrue nofun

instance decidableMeetsUpdates (updates : List (UInt16 × Option IsarValue)) :
    ∀ (txn : NativeTxn) (ids : List Int64),
      Decidable (c.MeetsUpdates xxh3_64 condition updates txn ids)
  | _, [] => isTrue trivial
  | txn, id :: ids =>
    have (txn' : NativeTxn) := decidableMeetsUpdates updates txn' ids
    have : Decidable (∀ old, c.objects txn id = some old →
        ∀ new, c.updateObject old updates = .ok new → condition txn id new) :=
      inferInstanceAs (Decidable (∀ old ∈ c.objects txn id,
        ∀ new, c.updateObject old updates = .ok new → condition txn id new))
    have : Decidable (∀ r, c.update xxh3_64 txn id updates = .ok r →
        c.MeetsUpdates xxh3_64 condition updates r.1 ids) := inferInstance
    decidable_of_iff ((∀ old, c.objects txn id = some old →
        ∀ new, c.updateObject old updates = .ok new → condition txn id new) ∧
      ∀ r, c.update xxh3_64 txn id updates = .ok r →
        c.MeetsUpdates xxh3_64 condition updates r.1 ids)
      ⟨fun h => ⟨fun old new stored => h.1 old stored new, fun txn' found => h.2 (txn', found)⟩,
        fun h => ⟨fun old stored new => h.1 old new stored, fun r => h.2 r.1 r.2⟩⟩

instance decidableMeets : ∀ (txn : NativeTxn) (operations : List Operation),
    Decidable (c.Meets xxh3_64 condition txn operations)
  | _, [] => isTrue trivial
  | txn, operation :: operations =>
    have : Decidable (c.MeetsOperation xxh3_64 condition txn operation) :=
      match operation with
      | .save id object => inferInstanceAs (Decidable (condition txn id object))
      | .update id updates => decidableMeetsUpdates updates txn [id]
      | .queryUpdate ids updates => decidableMeetsUpdates updates txn ids
      | .delete _ | .clear | .queryDelete _ => isTrue trivial
    have (txn' : NativeTxn) := decidableMeets txn' operations
    inferInstanceAs (Decidable (_ ∧ _))

end

theorem meetsUpdates_of_forall {c : NativeCollection} {condition : NativeTxn → Int64 → Bytes → Prop}
    (all : ∀ txn id bytes, condition txn id bytes) (updates : List (UInt16 × Option IsarValue))
    (txn : NativeTxn) (ids : List Int64) :
    c.MeetsUpdates xxh3_64 condition updates txn ids := by
  induction ids generalizing txn with
  | nil => trivial
  | cons id ids ih => exact ⟨fun _ _ _ _ => all .., fun txn' _ _ => ih txn'⟩

/-- A condition that always holds is met by every run. -/
theorem meets_of_forall {c : NativeCollection} {condition : NativeTxn → Int64 → Bytes → Prop}
    (all : ∀ txn id bytes, condition txn id bytes) (txn : NativeTxn)
    (operations : List Operation) : c.Meets xxh3_64 condition txn operations := by
  induction operations generalizing txn with
  | nil => trivial
  | cons operation operations ih =>
    refine ⟨?_, fun txn' _ => ih txn'⟩
    cases operation with
    | save id object => exact all ..
    | update id updates => exact meetsUpdates_of_forall all ..
    | queryUpdate ids updates => exact meetsUpdates_of_forall all ..
    | _ => trivial

/-- What a put under the condition, a delete and a clear preserve. -/
structure Preserved (xxh3_64 : Bytes → UInt64) (c : NativeCollection)
    (condition : NativeTxn → Int64 → Bytes → Prop) (P : NativeTxn → Prop) : Prop where
  put : ∀ {txn txn' id bytes}, P txn → condition txn id bytes →
    c.put xxh3_64 txn id bytes = .ok txn' → P txn'
  delete : ∀ {txn txn' id found}, P txn → c.delete xxh3_64 txn id = .ok (txn', found) → P txn'
  clear : ∀ {txn txn'}, P txn → c.clear xxh3_64 txn = .ok txn' → P txn'

namespace Preserved

variable {c : NativeCollection} {condition : NativeTxn → Int64 → Bytes → Prop}
  {P : NativeTxn → Prop}

theorem update (preserved : Preserved xxh3_64 c condition P) {txn txn' : NativeTxn} {id : Int64}
    {updates : List (UInt16 × Option IsarValue)} {found : Bool} (holds : P txn)
    (meets : ∀ old new, c.objects txn id = some old → c.updateObject old updates = .ok new →
      condition txn id new)
    (h : c.update xxh3_64 txn id updates = .ok (txn', found)) : P txn' := by
  simp only [NativeCollection.update, bind_eq_ok, cursorDb_eq_ok] at h
  obtain ⟨db, hdb, h⟩ := h
  rw [objects_of_db hdb] at meets
  split at h
  · rename_i old stored
    simp only [bind_eq_ok, pure_eq_ok, Prod.mk.injEq] at h
    obtain ⟨new, updated, txn₁, put, rfl, -⟩ := h
    exact preserved.put holds (meets old new stored updated) put
  · simp only [pure_eq_ok, Prod.mk.injEq] at h
    exact h.1 ▸ holds

theorem foldlM_update (preserved : Preserved xxh3_64 c condition P) {txn txn' : NativeTxn}
    {ids : List Int64} {updates : List (UInt16 × Option IsarValue)} (holds : P txn)
    (meets : c.MeetsUpdates xxh3_64 condition updates txn ids)
    (h : ids.foldlM (fun txn id => (c.update xxh3_64 txn id updates).map Prod.fst) txn = .ok txn') :
    P txn' := by
  induction ids generalizing txn with
  | nil => exact pure_eq_ok.mp h ▸ holds
  | cons id ids ih =>
    simp only [List.foldlM_cons, bind_eq_ok, map_eq_ok] at h
    obtain ⟨txn₁, ⟨⟨txn₂, found⟩, first, rfl⟩, h⟩ := h
    exact ih (preserved.update holds meets.1 first) (meets.2 _ _ first) h

theorem foldlM_delete (preserved : Preserved xxh3_64 c condition P) {txn txn' : NativeTxn}
    {ids : List Int64} (holds : P txn)
    (h : ids.foldlM (fun txn id => (c.delete xxh3_64 txn id).map Prod.fst) txn = .ok txn') :
    P txn' := by
  induction ids generalizing txn with
  | nil => exact pure_eq_ok.mp h ▸ holds
  | cons id ids ih =>
    simp only [List.foldlM_cons, bind_eq_ok, map_eq_ok] at h
    obtain ⟨txn₁, ⟨⟨txn₂, found⟩, first, rfl⟩, h⟩ := h
    exact ih (preserved.delete holds first) h

theorem perform (preserved : Preserved xxh3_64 c condition P) {txn txn' : NativeTxn}
    {operation : Operation} (holds : P txn)
    (meets : c.MeetsOperation xxh3_64 condition txn operation)
    (h : c.perform xxh3_64 txn operation = .ok txn') : P txn' := by
  cases operation with
  | save id object =>
    simp only [NativeCollection.perform, saveObject] at h
    split at h
    · simp at h
    · exact preserved.put holds meets h
  | update id updates =>
    obtain ⟨⟨txn₁, found⟩, done, rfl⟩ := map_eq_ok.mp h
    exact preserved.update holds meets.1 done
  | delete id =>
    obtain ⟨⟨txn₁, found⟩, done, rfl⟩ := map_eq_ok.mp h
    exact preserved.delete holds done
  | clear => exact preserved.clear holds h
  | queryUpdate ids updates =>
    obtain ⟨⟨txn₁, count⟩, done, rfl⟩ := map_eq_ok.mp h
    simp only [queryUpdate, bind_eq_ok, pure_eq_ok, Prod.mk.injEq] at done
    obtain ⟨txn₂, done, rfl, -⟩ := done
    exact preserved.foldlM_update holds meets done
  | queryDelete ids =>
    obtain ⟨⟨txn₁, count⟩, done, rfl⟩ := map_eq_ok.mp h
    simp only [queryDelete, bind_eq_ok, pure_eq_ok, Prod.mk.injEq] at done
    obtain ⟨txn₂, done, rfl, -⟩ := done
    exact preserved.foldlM_delete holds done

/-- What puts under the condition, deletes and clears preserve holds after every run. -/
theorem run (preserved : Preserved xxh3_64 c condition P) {txn txn' : NativeTxn}
    {operations : List Operation} (holds : P txn) (meets : c.Meets xxh3_64 condition txn operations)
    (h : c.run xxh3_64 txn operations = .ok txn') : P txn' := by
  induction operations generalizing txn with
  | nil => exact pure_eq_ok.mp h ▸ holds
  | cons operation operations ih =>
    simp only [NativeCollection.run, List.foldlM_cons, bind_eq_ok] at h
    obtain ⟨txn₁, first, h⟩ := h
    exact ih (preserved.perform holds meets.1 first) (meets.2 txn₁ first) h

end Preserved

/-! ## Single writes -/

/-- What every single write of an operation preserves: to the objects, to an entry of an index, and
to what a transaction has besides. -/
structure PreservedByWrites (c : NativeCollection) (P : NativeTxn → Prop) : Prop where
  aside : ∀ {txn txn' : NativeTxn}, P txn → txn'.primary = txn.primary → txn'.index = txn.index →
    P txn'
  objects : ∀ {txn : NativeTxn} {db : Db} {objects}, P txn → c.db = some db →
    P { txn with primary := Function.update txn.primary db objects }
  putEntry : ∀ {txn : NativeTxn} {index : NativeIndex} {key : Bytes} {id : Int64}, P txn →
    index ∈ c.indexes → P (txn.putEntry index.db key (toIdBytes id))
  deleteEntry : ∀ {txn : NativeTxn} {index : NativeIndex} {key : Bytes} {id : Int64}, P txn →
    index ∈ c.indexes → P (txn.deleteEntry index.db key (toIdBytes id))
  clearIndex : ∀ {txn : NativeTxn} {index : NativeIndex}, P txn → index ∈ c.indexes →
    P (txn.clearIndex index.db)

namespace PreservedByWrites

variable {c : NativeCollection} {P : NativeTxn → Prop} {txn txn' : NativeTxn} {id : Int64}

theorem registered (writes : PreservedByWrites c P) (holds : P txn) (change : Change) (id : Int64)
    (old new : Option Bytes) : P (c.registerDetailed (txn.register change) id old new) :=
  writes.aside holds (primary_registerDetailed ..) (index_registerDetailed ..)

/-- A loop over the indexes preserves what every turn does. -/
theorem foldlM {f : NativeTxn → NativeIndex → Result NativeTxn} {indexes : List NativeIndex}
    (turn : ∀ txn txn' index, index ∈ indexes → P txn → f txn index = .ok txn' → P txn')
    (holds : P txn) (h : indexes.foldlM f txn = .ok txn') : P txn' := by
  induction indexes generalizing txn with
  | nil => exact pure_eq_ok.mp h ▸ holds
  | cons index indexes ih =>
    rw [List.foldlM_cons] at h
    obtain ⟨txn₁, first, h⟩ := bind_eq_ok.mp h
    have one := turn txn txn₁ index List.mem_cons_self holds first
    exact ih (fun txn txn' index mem => turn txn txn' index (List.mem_cons_of_mem _ mem)) one h

theorem deleteEntries (writes : PreservedByWrites c P) (holds : P txn) {object : IsarDeserializer}
    (h : c.deleteEntries xxh3_64 txn id object = .ok txn') : P txn' := by
  apply foldlM _ holds h
  intro txn txn' index mem holds removed
  obtain ⟨key, -, -, rfl⟩ := NativeIndex.deleteForObject_spec removed
  exact writes.deleteEntry holds mem

theorem delete (writes : PreservedByWrites c P) {found : Bool} (holds : P txn)
    (h : c.delete xxh3_64 txn id = .ok (txn', found)) : P txn' := by
  obtain ⟨db, hdb, h⟩ := bind_eq_ok.mp h
  rw [cursorDb_eq_ok] at hdb
  split at h
  · rename_i bytes _
    obtain ⟨object, -, h⟩ := bind_eq_ok.mp h
    obtain ⟨txn₁, removed, h⟩ := bind_eq_ok.mp h
    cases pure_eq_ok.mp h
    have registered := writes.registered holds (.object c.name id bytes) id (some bytes) none
    exact writes.objects (writes.deleteEntries registered removed) hdb
  · cases pure_eq_ok.mp h
    exact holds

theorem createEntries (writes : PreservedByWrites c P) (holds : P txn) {object : IsarDeserializer}
    (h : c.createEntries xxh3_64 txn id object = .ok txn') : P txn' := by
  apply foldlM _ holds h
  intro txn txn' index mem holds created
  obtain ⟨⟨key, containsNull⟩, -, created⟩ := bind_eq_ok.mp created
  obtain ⟨txn₁, evicted, created⟩ := bind_eq_ok.mp created
  obtain rfl := pure_eq_ok.mp created
  have evicts : P txn₁ := by
    simp only [NativeIndex.deleteConflict] at evicted
    split at evicted
    · split at evicted
      · obtain ⟨conflict, -, evicted⟩ := bind_eq_ok.mp evicted
        obtain ⟨⟨_, found⟩, deleted, rfl⟩ := map_eq_ok.mp evicted
        exact writes.delete holds deleted
      · exact pure_eq_ok.mp evicted ▸ holds
    · exact pure_eq_ok.mp evicted ▸ holds
  exact writes.putEntry evicts mem

theorem put (writes : PreservedByWrites c P) {bytes : Bytes} (holds : P txn)
    (h : c.put xxh3_64 txn id bytes = .ok txn') : P txn' := by
  obtain ⟨db, hdb, h⟩ := bind_eq_ok.mp h
  rw [cursorDb_eq_ok] at hdb
  obtain ⟨txn₁, removed, h⟩ := bind_eq_ok.mp h
  obtain ⟨object, -, h⟩ := bind_eq_ok.mp h
  obtain ⟨txn₂, created, h⟩ := bind_eq_ok.mp h
  obtain rfl := pure_eq_ok.mp h
  have old : P txn₁ := by
    cases stored : c.oldObject txn db id with
    | none =>
      rw [stored] at removed
      exact pure_eq_ok.mp removed ▸ holds
    | some oldBytes =>
      rw [stored] at removed
      obtain ⟨oldObject, -, removed⟩ := bind_eq_ok.mp removed
      exact writes.deleteEntries holds removed
  have registered := writes.registered old (.object c.name id bytes) id (c.oldObject txn db id)
    (some bytes)
  have counted : P (c.updateAutoIncrement txn₂ id) :=
    writes.aside (writes.createEntries registered created) rfl rfl
  exact writes.objects counted hdb

theorem clear (writes : PreservedByWrites c P) (holds : P txn)
    (h : c.clear xxh3_64 txn = .ok txn') : P txn' := by
  obtain ⟨db, hdb, -, rfl⟩ := clear_eq_ok.mp h
  have start : P ((txn.register (.all c.name)).clearPrimary db) :=
    writes.objects (writes.aside holds rfl rfl) hdb
  exact List.foldlRecOn c.indexes _ start fun txn holds index mem => writes.clearIndex holds mem

/-- What single writes preserve holds after every run. -/
theorem run (writes : PreservedByWrites c P) {operations : List Operation} (holds : P txn)
    (h : c.run xxh3_64 txn operations = .ok txn') : P txn' := by
  have preserved : Preserved xxh3_64 c (fun _ _ _ => True) P :=
    ⟨fun holds _ => writes.put holds, writes.delete, writes.clear⟩
  exact preserved.run holds (meets_of_forall (fun _ _ _ => trivial) txn operations) h

end PreservedByWrites

end NativeCollection

end IsarPlus.Native
