import IsarPlus.Lib.OrderedStore
import Mathlib.Logic.Function.Basic

/-!
# Secondary indexes

A table of objects under ids, and a multimap that is meant to hold one entry for every object:
the object's key bound to the encoded id. An object may have no key at all (`key o = none`).
-/

namespace SecondaryIndex
open OrderedStore

variable {ι ο κ ν : Type*} [LinearOrder κ] [LinearOrder ν]

/-- The multimap holds exactly the key-id pairs of the table's objects. -/
def Exact (key : ο → Option κ) (enc : ι → ν) (table : ι → Option ο) (m : MultiMap κ ν) : Prop :=
  ∀ k v, m.Has k v ↔ ∃ i o, v = enc i ∧ table i = some o ∧ key o = some k

/-- No two different ids of the table hold conflicting objects. -/
def Apart (conflict : ο → ο → Prop) (table : ι → Option ο) : Prop :=
  ∀ i j o o', table i = some o → table j = some o' → conflict o o' → i = j

/-- `table'` holds some of the objects of `table`, under the same ids. -/
def Within (table' table : ι → Option ο) : Prop :=
  ∀ i o, table' i = some o → table i = some o

theorem Within.refl (table : ι → Option ο) : Within table table := fun _ _ h => h

theorem Within.trans {t t' t'' : ι → Option ο} (h : Within t'' t') (h' : Within t' t) :
    Within t'' t := fun i o stored => h' i o (h i o stored)

theorem Apart.empty (conflict : ο → ο → Prop) : Apart conflict (fun _ : ι => none) := by
  intro i j o o' h
  cases h

theorem Apart.within {conflict : ο → ο → Prop} {table table' : ι → Option ο}
    (apart : Apart conflict table) (within : Within table' table) : Apart conflict table' :=
  fun i j o o' h h' hc => apart i j o o' (within i o h) (within j o' h') hc

/-! ## Eviction -/

/-- From `table` to `table'` objects have been evicted: only members of the classes, and at least
one member of every class that had any. -/
structure Evicts (classes : List (ο → Prop)) (table table' : ι → Option ο) : Prop where
  within : Within table' table
  evicted : ∀ i o, table i = some o → table' i = none → ∃ C ∈ classes, C o
  hit : ∀ C ∈ classes, ∀ i o, table i = some o → C o →
    ∃ j o', table j = some o' ∧ table' j = none ∧ C o'

namespace Evicts

variable {classes classes' : List (ο → Prop)} {t t' t'' : ι → Option ο}

theorem refl (t : ι → Option ο) : Evicts [] t t where
  within := Within.refl t
  evicted i o h h' := by rw [h] at h'; cases h'
  hit C mem := by simp at mem

/-- A class without members evicts nothing. -/
theorem of_clear {C : ο → Prop} (clear : ∀ i o, t i = some o → ¬ C o) : Evicts [C] t t where
  within := Within.refl t
  evicted i o h h' := by rw [h] at h'; cases h'
  hit C' mem i o stored member := by
    obtain rfl := List.mem_singleton.mp mem
    exact absurd member (clear i o stored)

theorem trans (first : Evicts classes t t') (second : Evicts classes' t' t'') :
    Evicts (classes ++ classes') t t'' where
  within := second.within.trans first.within
  evicted i o stored gone := by
    cases h : t' i with
    | none =>
      obtain ⟨C, mem, member⟩ := first.evicted i o stored h
      exact ⟨C, List.mem_append_left _ mem, member⟩
    | some o' =>
      have same : o' = o := Option.some.inj ((first.within i o' h).symm.trans stored)
      obtain ⟨C, mem, member⟩ := second.evicted i o' h gone
      exact ⟨C, List.mem_append_right _ mem, same ▸ member⟩
  hit C mem i o stored member := by
    have gone_of_gone {j : ι} (h : t' j = none) : t'' j = none := by
      cases h'' : t'' j with
      | none => rfl
      | some o' => rw [second.within j o' h''] at h; cases h
    rcases List.mem_append.mp mem with mem | mem
    · obtain ⟨j, o', stored', gone, member'⟩ := first.hit C mem i o stored member
      exact ⟨j, o', stored', gone_of_gone gone, member'⟩
    · cases h : t' i with
      | none => exact ⟨i, o, stored, gone_of_gone h, member⟩
      | some o₁ =>
        have same : o₁ = o := Option.some.inj ((first.within i o₁ h).symm.trans stored)
        obtain ⟨j, o', stored', gone, member'⟩ := second.hit C mem i o₁ h (same ▸ member)
        exact ⟨j, o', first.within j o' stored', gone, member'⟩

/-- Where every class has at most one member, exactly the members are evicted. -/
theorem eq_some_iff (evicts : Evicts classes t t')
    (alone : ∀ C ∈ classes, ∀ i j o o', t i = some o → t j = some o' → C o → C o' → i = j) {i : ι}
    {o : ο} : t' i = some o ↔ t i = some o ∧ ∀ C ∈ classes, ¬ C o := by
  constructor
  · intro kept
    have stored := evicts.within i o kept
    refine ⟨stored, fun C mem member => ?_⟩
    obtain ⟨j, o', stored', gone, member'⟩ := evicts.hit C mem i o stored member
    rw [alone C mem i j o o' stored stored' member member', gone] at kept
    cases kept
  · rintro ⟨stored, clear⟩
    cases h : t' i with
    | none =>
      obtain ⟨C, mem, member⟩ := evicts.evicted i o stored h
      exact absurd member (clear C mem)
    | some o' => exact congrArg some (Option.some.inj ((evicts.within i o' h).symm.trans stored))

end Evicts

namespace Exact

variable {key : ο → Option κ} {enc : ι → ν} {table : ι → Option ο} {m : MultiMap κ ν}

theorem empty : Exact key enc (fun _ : ι => none) .empty := by
  intro k v
  simp

/-- What a lookup by key finds is an object of the table under that key. -/
theorem of_firstDup (exact : Exact key enc table m) {k : κ} {v : ν} (h : m.firstDup k = some v) :
    ∃ i o, v = enc i ∧ table i = some o ∧ key o = some k :=
  (exact k v).mp (MultiMap.has_of_firstDup h)

/-- A key that a lookup does not find belongs to no object of the table. -/
theorem of_firstDup_none (exact : Exact key enc table m) {k : κ} (h : m.firstDup k = none) {i : ι}
    {o : ο} (stored : table i = some o) : key o ≠ some k := by
  intro hk
  exact MultiMap.firstDup_eq_none.mp h (enc i) ((exact k (enc i)).mpr ⟨i, o, rfl, stored, hk⟩)

end Exact

/-! ## Storing and removing an object -/

variable [DecidableEq ι]

theorem Within.erase (table : ι → Option ο) (i : ι) :
    Within (Function.update table i none) table := by
  intro j o stored
  by_cases h : j = i
  · subst h
    rw [Function.update_self] at stored
    cases stored
  · rwa [Function.update_of_ne h] at stored

/-- Removing a member of a class that has no other is an eviction. -/
theorem Evicts.erase {C : ο → Prop} {table : ι → Option ο} {i : ι} {o : ο}
    (stored : table i = some o) (member : C o) :
    Evicts [C] table (Function.update table i none) where
  within := Within.erase table i
  evicted j o' stored' gone := by
    by_cases h : j = i
    · subst h
      obtain rfl := Option.some.inj (stored.symm.trans stored')
      exact ⟨C, List.mem_singleton_self C, member⟩
    · rw [Function.update_of_ne h, stored'] at gone
      cases gone
  hit C' mem _ _ _ _ := by
    obtain rfl := List.mem_singleton.mp mem
    exact ⟨i, o, stored, Function.update_self .., member⟩

/-- Putting an object that conflicts with none of the others keeps the objects apart. -/
theorem Apart.put {conflict : ο → ο → Prop} {table : ι → Option ο} (apart : Apart conflict table)
    {i : ι} {o : ο}
    (clear : ∀ j o', j ≠ i → table j = some o' → ¬ conflict o o' ∧ ¬ conflict o' o) :
    Apart conflict (Function.update table i (some o)) := by
  intro j j' o₁ o₂ h₁ h₂ hc
  by_cases hj : j = i <;> by_cases hj' : j' = i
  · exact hj.trans hj'.symm
  · subst hj
    rw [Function.update_self, Option.some.injEq] at h₁
    rw [Function.update_of_ne hj'] at h₂
    subst h₁
    exact absurd hc (clear j' o₂ hj' h₂).1
  · subst hj'
    rw [Function.update_self, Option.some.injEq] at h₂
    rw [Function.update_of_ne hj] at h₁
    subst h₂
    exact absurd hc (clear j o₁ hj h₁).2
  · rw [Function.update_of_ne hj] at h₁
    rw [Function.update_of_ne hj'] at h₂
    exact apart j j' o₁ o₂ h₁ h₂ hc

namespace Exact

variable {key : ο → Option κ} {enc : ι → ν} {table : ι → Option ο} {m : MultiMap κ ν}

/-- Storing under a free id adds the one entry of the new object. -/
theorem put (exact : Exact key enc table m) {i : ι} {o : ο} {k : κ} (free : table i = none)
    (hk : key o = some k) :
    Exact key enc (Function.update table i (some o)) (m.put k (enc i)) := by
  intro k' v
  rw [MultiMap.has_put, exact k' v]
  constructor
  · rintro (⟨rfl, rfl⟩ | ⟨j, o', rfl, stored, hk'⟩)
    · exact ⟨i, o, rfl, Function.update_self .., hk⟩
    · have : j ≠ i := fun h => by rw [h, free] at stored; cases stored
      exact ⟨j, o', rfl, by rw [Function.update_of_ne this, stored], hk'⟩
  · rintro ⟨j, o', rfl, stored, hk'⟩
    by_cases h : j = i
    · subst h
      rw [Function.update_self, Option.some.injEq] at stored
      subst stored
      exact Or.inl ⟨Option.some.inj (hk'.symm.trans hk), rfl⟩
    · rw [Function.update_of_ne h] at stored
      exact Or.inr ⟨j, o', rfl, stored, hk'⟩

/-- Removing an object removes its one entry, provided ids are encoded apart. -/
theorem del (exact : Exact key enc table m) (inj : Function.Injective enc) {i : ι} {o : ο} {k : κ}
    (stored : table i = some o) (hk : key o = some k) :
    Exact key enc (Function.update table i none) (m.del k (enc i)) := by
  intro k' v
  rw [MultiMap.has_del, exact k' v]
  constructor
  · rintro ⟨other, j, o', rfl, stored', hk'⟩
    have : j ≠ i := by
      rintro rfl
      rw [stored, Option.some.injEq] at stored'
      subst stored'
      exact other ⟨Option.some.inj (hk'.symm.trans hk), rfl⟩
    exact ⟨j, o', rfl, by rw [Function.update_of_ne this, stored'], hk'⟩
  · rintro ⟨j, o', rfl, stored', hk'⟩
    have : j ≠ i := by
      rintro rfl
      rw [Function.update_self] at stored'
      cases stored'
    rw [Function.update_of_ne this] at stored'
    exact ⟨fun h => this (inj h.2), j, o', rfl, stored', hk'⟩

end Exact

/-! ## Indexes that do not know every object -/

/-- The multimap holds exactly the key-id pairs of those objects of the table whose ids it knows. -/
def Tracks (known : ι → Prop) (key : ο → Option κ) (enc : ι → ν) (table : ι → Option ο)
    (m : MultiMap κ ν) : Prop :=
  ∀ k v, m.Has k v ↔ ∃ i o, v = enc i ∧ known i ∧ table i = some o ∧ key o = some k

namespace Tracks

variable {known known' : ι → Prop} {key : ο → Option κ} {enc : ι → ν} {table : ι → Option ο}
  {m : MultiMap κ ν}

omit [DecidableEq ι] in
theorem empty (clear : ∀ i, known i → table i = none) : Tracks known key enc table .empty := by
  intro k v
  constructor
  · intro entry
    simp at entry
  · rintro ⟨i, o, -, knows, stored, -⟩
    rw [clear i knows] at stored
    cases stored

omit [DecidableEq ι] in
/-- Only what is known of the objects of the table counts. -/
theorem congr (tracks : Tracks known key enc table m)
    (same : ∀ i o, table i = some o → (known i ↔ known' i)) : Tracks known' key enc table m := by
  intro k v
  rw [tracks k v]
  constructor
  · rintro ⟨i, o, rfl, knows, stored, hk⟩
    exact ⟨i, o, rfl, (same i o stored).mp knows, stored, hk⟩
  · rintro ⟨i, o, rfl, knows, stored, hk⟩
    exact ⟨i, o, rfl, (same i o stored).mpr knows, stored, hk⟩

omit [DecidableEq ι] in
theorem of_firstDup (tracks : Tracks known key enc table m) {k : κ} {v : ν}
    (h : m.firstDup k = some v) :
    ∃ i o, v = enc i ∧ known i ∧ table i = some o ∧ key o = some k :=
  (tracks k v).mp (MultiMap.has_of_firstDup h)

/-- A new object under a known id that is free. -/
theorem put (tracks : Tracks known key enc table m) {i : ι} {o : ο} {k : κ} (knows : known i)
    (free : table i = none) (hk : key o = some k) :
    Tracks known key enc (Function.update table i (some o)) (m.put k (enc i)) := by
  intro k' v
  rw [MultiMap.has_put, tracks k' v]
  constructor
  · rintro (⟨rfl, rfl⟩ | ⟨j, o', rfl, knows', stored, hk'⟩)
    · exact ⟨i, o, rfl, knows, Function.update_self .., hk⟩
    · have other : j ≠ i := fun h => by rw [h, free] at stored; cases stored
      exact ⟨j, o', rfl, knows', by rw [Function.update_of_ne other, stored], hk'⟩
  · rintro ⟨j, o', rfl, knows', stored, hk'⟩
    by_cases h : j = i
    · subst h
      rw [Function.update_self, Option.some.injEq] at stored
      subst stored
      exact Or.inl ⟨Option.some.inj (hk'.symm.trans hk), rfl⟩
    · rw [Function.update_of_ne h] at stored
      exact Or.inr ⟨j, o', rfl, knows', stored, hk'⟩

/-- An object that is removed, known or not. -/
theorem del (tracks : Tracks known key enc table m) (inj : Function.Injective enc) {i : ι} {o : ο}
    {k : κ} (stored : table i = some o) (hk : key o = some k) :
    Tracks known key enc (Function.update table i none) (m.del k (enc i)) := by
  intro k' v
  rw [MultiMap.has_del, tracks k' v]
  constructor
  · rintro ⟨other, j, o', rfl, knows, stored', hk'⟩
    have differ : j ≠ i := by
      rintro rfl
      rw [stored, Option.some.injEq] at stored'
      subst stored'
      exact other ⟨Option.some.inj (hk'.symm.trans hk), rfl⟩
    exact ⟨j, o', rfl, knows, by rw [Function.update_of_ne differ, stored'], hk'⟩
  · rintro ⟨j, o', rfl, knows, stored', hk'⟩
    have differ : j ≠ i := by
      rintro rfl
      rw [Function.update_self] at stored'
      cases stored'
    rw [Function.update_of_ne differ] at stored'
    exact ⟨fun h => differ (inj h.2), j, o', rfl, knows, stored', hk'⟩

omit [DecidableEq ι] in
/-- An index without orphans tracks the objects that it has an entry of. -/
theorem of_backed (inj : Function.Injective enc)
    (backed : ∀ k v, m.Has k v → ∃ i o, v = enc i ∧ table i = some o ∧ key o = some k) :
    Tracks (fun i => ∃ k, m.Has k (enc i)) key enc table m := by
  intro k v
  constructor
  · intro entry
    obtain ⟨i, o, rfl, stored, hk⟩ := backed k v entry
    exact ⟨i, o, rfl, ⟨k, entry⟩, stored, hk⟩
  · rintro ⟨i, o, rfl, ⟨k', entry⟩, stored, hk⟩
    obtain ⟨j, o', same, stored', hk'⟩ := backed k' (enc i) entry
    obtain rfl := inj same
    rw [stored, Option.some.injEq] at stored'
    subst stored'
    rw [hk, Option.some.injEq] at hk'
    exact hk' ▸ entry

end Tracks

end SecondaryIndex
