import Mathlib.Data.List.Nodup
import Mathlib.Data.List.Perm.Basic

/-!
# Differences of keyed lists

Bringing a list up to date with another one, both without two elements of one key: what does not
stay is dropped by its key, and what is dropped and wanted again, or not there at all, is added.
-/

namespace IsarPlus.KeyedDiff

section
variable {α κ : Type} (key : α → κ) (stays : α → Bool) (old new : List α)

/-- The keys of the old elements that do not stay. -/
def dropped : List κ := (old.filter fun a => !stays a).map key

variable {key stays old} in
theorem mem_dropped {k : κ} : k ∈ dropped key stays old ↔ ∃ a ∈ old, stays a = false ∧ key a = k := by
  simp [dropped, and_assoc]

variable [DecidableEq κ]

/-- What is left of the old list when the keys are dropped. -/
def kept : List α := old.filter fun a => key a ∉ dropped key stays old

/-- The new elements for the keys that are dropped. -/
def replaced : List α :=
  (old.filter fun a => !stays a).filterMap fun a => new.find? fun b => decide (key b = key a)

/-- The new elements whose keys the old list does not have. -/
def fresh : List α := new.filter fun b => !old.any fun a => decide (key a = key b)

variable {key stays old new}

theorem mem_kept {a : α} (nodup : (old.map key).Nodup) :
    a ∈ kept key stays old ↔ a ∈ old ∧ stays a = true := by
  rw [kept, List.mem_filter, decide_eq_true_iff, mem_dropped]
  refine and_congr_right fun mem => ⟨fun none => ?_, fun stay => ?_⟩
  · by_contra leaves
    exact none ⟨a, mem, by simpa using leaves, rfl⟩
  · rintro ⟨b, mem', leaves, same⟩
    have eq := List.inj_on_of_nodup_map nodup mem' mem same
    rw [eq, stay] at leaves
    cases leaves

theorem find?_key_eq_some {k : κ} {b : α} (nodup : (new.map key).Nodup) :
    (new.find? fun b => decide (key b = k)) = some b ↔ b ∈ new ∧ key b = k := by
  refine ⟨fun found => ⟨List.mem_of_find?_eq_some found, ?_⟩, fun ⟨mem, same⟩ => ?_⟩
  · simpa using List.find?_some found
  · obtain ⟨c, found⟩ : ∃ c, (new.find? fun b => decide (key b = k)) = some c :=
      Option.isSome_iff_exists.mp (List.find?_isSome.mpr ⟨b, mem, by simpa using same⟩)
    have key' : key c = k := by simpa using List.find?_some found
    rw [found, List.inj_on_of_nodup_map nodup (List.mem_of_find?_eq_some found) mem
      (key'.trans same.symm)]

theorem mem_replaced {b : α} (nodup : (new.map key).Nodup) :
    b ∈ replaced key stays old new ↔ b ∈ new ∧ ∃ a ∈ old, stays a = false ∧ key a = key b := by
  simp only [replaced, List.mem_filterMap, List.mem_filter, Bool.not_eq_true',
    find?_key_eq_some nodup]
  grind

theorem mem_fresh {b : α} : b ∈ fresh key old new ↔ b ∈ new ∧ ∀ a ∈ old, key a ≠ key b := by
  simp [fresh]

/-- The keys of the replacements are dropped ones, in order. -/
theorem map_key_replaced_sublist :
    ((replaced key stays old new).map key).Sublist (dropped key stays old) := by
  unfold replaced dropped
  induction old.filter fun a => !stays a with
  | nil => simp
  | cons a as ih =>
    cases found : new.find? fun b => decide (key b = key a) with
    | none =>
      simp only [List.filterMap_cons, found, List.map_cons]
      exact ih.cons _
    | some b =>
      have same : key b = key a := by simpa using List.find?_some found
      simp only [List.filterMap_cons, found, List.map_cons, same]
      exact ih.cons_cons _

theorem nodup_result (oldNodup : (old.map key).Nodup) (newNodup : (new.map key).Nodup) :
    ((kept key stays old ++ (replaced key stays old new ++ fresh key old new)).map key).Nodup := by
  have droppedNodup : (dropped key stays old).Nodup :=
    oldNodup.sublist (List.Sublist.map key List.filter_sublist)
  simp only [List.map_append, List.nodup_append, List.mem_append, List.mem_map, forall_exists_index,
    and_imp, forall_apply_eq_imp_iff₂]
  refine ⟨oldNodup.sublist (List.Sublist.map key List.filter_sublist),
    ⟨droppedNodup.sublist map_key_replaced_sublist,
      newNodup.sublist (List.Sublist.map key List.filter_sublist), ?_⟩, ?_⟩
  · intro b mem c mem' same
    obtain ⟨-, a, old', -, same'⟩ := (mem_replaced newNodup).mp mem
    exact (mem_fresh.mp mem').2 a old' (same'.trans same)
  · intro a mem
    obtain ⟨old', stay⟩ := (mem_kept oldNodup).mp mem
    rintro k (⟨b, mem', rfl⟩ | ⟨b, mem', rfl⟩) same
    · obtain ⟨-, a', old'', leaves, same'⟩ := (mem_replaced newNodup).mp mem'
      rw [List.inj_on_of_nodup_map oldNodup old'' old' (same'.trans same.symm), stay] at leaves
      cases leaves
    · exact (mem_fresh.mp mem').2 a old' same

/-- Up to the order the result is the new list, if what stays is part of it. -/
theorem perm (oldNodup : (old.map key).Nodup) (newNodup : (new.map key).Nodup)
    (sound : ∀ a ∈ old, stays a = true → a ∈ new) :
    (kept key stays old ++ (replaced key stays old new ++ fresh key old new)).Perm new := by
  rw [List.perm_ext_iff_of_nodup (nodup_result oldNodup newNodup).of_map newNodup.of_map]
  intro b
  simp only [List.mem_append, mem_kept oldNodup, mem_replaced newNodup, mem_fresh]
  refine ⟨?_, fun mem => ?_⟩
  · rintro (⟨mem, stay⟩ | ⟨mem, -⟩ | ⟨mem, -⟩)
    · exact sound b mem stay
    · exact mem
    · exact mem
  · by_cases there : ∃ a ∈ old, key a = key b
    · obtain ⟨a, mem', same⟩ := there
      cases stay : stays a with
      | true =>
        have eq := List.inj_on_of_nodup_map newNodup (sound a mem' stay) mem same
        exact Or.inl ⟨eq ▸ mem', eq ▸ stay⟩
      | false => exact Or.inr (Or.inl ⟨mem, a, mem', stay, same⟩)
    · exact Or.inr (Or.inr ⟨mem, fun a mem' same => there ⟨a, mem', same⟩⟩)

/-- Nothing changes if everything stays and no key is missing. -/
theorem unchanged (stay : ∀ a ∈ old, stays a = true) (complete : ∀ b ∈ new, ∃ a ∈ old, key a = key b) :
    dropped key stays old = [] ∧ replaced key stays old new = [] ∧ fresh key old new = [] := by
  have none : (old.filter fun a => !stays a) = [] := by simpa using stay
  refine ⟨by simp [dropped, none], by simp [replaced, none], ?_⟩
  simpa [fresh] using complete

end

end IsarPlus.KeyedDiff
