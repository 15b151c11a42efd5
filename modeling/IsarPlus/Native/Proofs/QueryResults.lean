import IsarPlus.Lib.SelectAnswers
import IsarPlus.Native.Query

/-!
# Results of native queries

The objects that the filter of a query lets through are sorted, and of those with one hash the first
one is kept.
-/

namespace IsarPlus.Native
open ByteBuffer Scalar Sql

/-- What `sort_unstable_by` guarantees of a comparison that orders the elements of the list. -/
structure SortsUnstably (sortUnstableBy : (QueryObject → QueryObject → Ordering) →
    List QueryObject → List QueryObject) : Prop where
  perm : ∀ compare objects, (sortUnstableBy compare objects).Perm objects
  sorted : ∀ compare objects order, Std.TransCmp order →
    (∀ a ∈ objects, ∀ b ∈ objects, compare a b = order a b) →
      (sortUnstableBy compare objects).Pairwise fun a b => (order a b).isLE

/-- Sorting by insertion. -/
def insertionSortBy (compare : QueryObject → QueryObject → Ordering) (objects : List QueryObject) :
    List QueryObject :=
  objects.insertionSort fun a b => (compare a b).isLE

theorem sortsUnstably_insertionSortBy : SortsUnstably insertionSortBy where
  perm := fun _ _ => List.perm_insertionSort _ _
  sorted := by
    intro compare objects order trans same
    have total : Std.Total fun a b : QueryObject => (order a b).isLE = true := by
      constructor
      intro a b
      have swap : order b a = (order a b).swap := Std.OrientedCmp.eq_swap
      rw [swap]
      cases order a b <;> simp
    have transitive : IsTrans QueryObject fun a b => (order a b).isLE = true :=
      ⟨fun _ _ _ => Std.TransCmp.isLE_trans⟩
    have eq : objects.insertionSort (fun a b => (compare a b).isLE) =
        objects.insertionSort fun a b => (order a b).isLE := by
      have mapped := List.map_insertionSort (fun a b => (compare a b).isLE = true)
        (fun a b => (order a b).isLE = true) id objects
        fun a memA b memB => by rw [same a memA b memB, id, id]
      rw [List.map_id, List.map_id] at mapped
      exact mapped
    rw [insertionSortBy, eq]
    exact List.pairwise_insertionSort _ objects

section
variable {toLowercase : List Char → List Char} {xxh3_64_with_seed : Bytes → UInt64 → UInt64}
  {sortUnstableBy : (QueryObject → QueryObject → Ordering) → List QueryObject → List QueryObject}

theorem sortObjects_perm (lawful : SortsUnstably sortUnstableBy)
    {sort : List (Option NativeProperty × SortOrder × Bool)} {objects : List QueryObject}
    {order : QueryObject → QueryObject → Ordering} (trans : Std.TransCmp order)
    (compares : ∀ a ∈ objects, ∀ b ∈ objects,
      compareObjects toLowercase a b sort = some (order a b)) :
    ∃ sorted, sortObjects toLowercase sortUnstableBy sort objects = some sorted ∧
      sorted.Perm objects ∧ sorted.Pairwise fun a b => (order a b).isLE := by
  have total : ∀ a ∈ objects, ∀ b ∈ objects,
      (compareObjects toLowercase a b sort).isSome := by
    intro a memA b memB
    rw [compares a memA b memB]
    rfl
  refine ⟨_, if_pos total, lawful.perm _ _, lawful.sorted _ _ order trans fun a memA b memB => ?_⟩
  rw [compares a memA b memB]
  rfl

/-- The objects whose hash has not been seen before are the first ones with it. -/
theorem distinctObjects_first {distinct : List (NativeProperty × Bool)}
    {hash : QueryObject → UInt64} {objects : List QueryObject} (hashes : List UInt64)
    (hashed : ∀ o ∈ objects,
      o.2.hashProperties toLowercase xxh3_64_with_seed distinct = some (hash o)) :
    ∃ result, distinctObjects toLowercase xxh3_64_with_seed distinct hashes objects = some result ∧
      result.Sublist objects ∧ (∀ o ∈ result, hash o ∉ hashes) ∧
      (result.Pairwise fun a b => hash a ≠ hash b) ∧
      ∀ o ∈ objects, hash o ∈ hashes ∨ ∃ r ∈ result, hash o = hash r := by
  induction objects generalizing hashes with
  | nil => exact ⟨[], rfl, List.Sublist.refl _, nofun, List.Pairwise.nil, nofun⟩
  | cons o objects ih =>
    have first := hashed o List.mem_cons_self
    have others := fun o' mem => hashed o' (List.mem_cons_of_mem o mem)
    by_cases seen : hash o ∈ hashes
    · obtain ⟨result, eq, sub, fresh, apart, all⟩ := ih hashes others
      refine ⟨result, ?_, sub.cons o, fresh, apart, fun o' mem => ?_⟩
      · rw [distinctObjects, first, Option.bind_eq_bind, Option.bind_some, if_pos seen, eq]
      · rcases List.mem_cons.mp mem with rfl | later
        · exact Or.inl seen
        · exact all o' later
    · obtain ⟨result, eq, sub, fresh, apart, all⟩ := ih (hash o :: hashes) others
      refine ⟨o :: result, ?_, sub.cons_cons o, ?_, ?_, ?_⟩
      · rw [distinctObjects, first, Option.bind_eq_bind, Option.bind_some, if_neg seen, eq]
        rfl
      · intro r mem
        rcases List.mem_cons.mp mem with rfl | later
        · exact seen
        · exact fun old => fresh r later (List.mem_cons_of_mem _ old)
      · refine List.pairwise_cons.mpr ⟨fun r mem same => ?_, apart⟩
        exact fresh r mem (same ▸ List.mem_cons_self)
      · intro o' mem
        rcases List.mem_cons.mp mem with rfl | later
        · exact Or.inr ⟨o', List.mem_cons_self, rfl⟩
        · rcases all o' later with old | ⟨r, memR, same⟩
          · rcases List.mem_cons.mp old with same | old
            · exact Or.inr ⟨o, List.mem_cons_self, same⟩
            · exact Or.inl old
          · exact Or.inr ⟨r, List.mem_cons_of_mem o memR, same⟩

end

end IsarPlus.Native
