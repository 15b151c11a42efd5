import Mathlib.Data.Prod.Lex
import Mathlib.Data.List.Sort

/-!
# Ordered stores

A sorted map and a sorted multimap as strictly increasing lists, so that an entry out of order
cannot be stored. The maps are observed through `find`, the multimaps through `Has`; two stores
that agree on these are equal.
-/

namespace OrderedStore

variable {κ ν : Type*} [LinearOrder κ]

/-! ## Maps -/

/-- A finite map whose entries are listed in strictly increasing key order. -/
structure SortedMap (κ ν : Type*) [LinearOrder κ] where
  entries : List (κ × ν)
  sorted : entries.Pairwise (fun a b => a.1 < b.1)

namespace SortedMap

/-- Places `(k, v)` in key order, replacing the entry of the same key. -/
def insertList (k : κ) (v : ν) : List (κ × ν) → List (κ × ν)
  | [] => [(k, v)]
  | e :: es =>
    if k < e.1 then (k, v) :: e :: es
    else if k = e.1 then (k, v) :: es
    else e :: insertList k v es

theorem mem_insertList {k : κ} {v : ν} {es : List (κ × ν)} {e : κ × ν}
    (h : e ∈ insertList k v es) : e = (k, v) ∨ e ∈ es := by
  induction es with
  | nil => simpa [insertList] using h
  | cons e' es ih =>
    simp only [insertList] at h
    split at h
    · simpa using h
    · split at h
      · rcases List.mem_cons.mp h with h | h
        · exact Or.inl h
        · exact Or.inr (List.mem_cons_of_mem _ h)
      · rcases List.mem_cons.mp h with h | h
        · exact Or.inr (h ▸ List.mem_cons_self)
        · rcases ih h with h | h
          · exact Or.inl h
          · exact Or.inr (List.mem_cons_of_mem _ h)

theorem pairwise_insertList (k : κ) (v : ν) {es : List (κ × ν)}
    (h : es.Pairwise (fun a b => a.1 < b.1)) :
    (insertList k v es).Pairwise (fun a b => a.1 < b.1) := by
  induction es with
  | nil => simp [insertList]
  | cons e es ih =>
    obtain ⟨head, tail⟩ := List.pairwise_cons.mp h
    simp only [insertList]
    split
    · rename_i lt
      refine List.pairwise_cons.mpr ⟨fun x hx => ?_, h⟩
      rcases List.mem_cons.mp hx with rfl | hx
      · exact lt
      · exact lt.trans (head x hx)
    · split
      · rename_i eq
        refine List.pairwise_cons.mpr ⟨fun x hx => ?_, tail⟩
        exact eq ▸ head x hx
      · rename_i nlt neq
        refine List.pairwise_cons.mpr ⟨fun x hx => ?_, ih tail⟩
        rcases mem_insertList hx with rfl | hx
        · exact lt_of_le_of_ne (not_lt.mp nlt) (Ne.symm neq)
        · exact head x hx

def empty : SortedMap κ ν := ⟨[], List.Pairwise.nil⟩

def find (m : SortedMap κ ν) (k : κ) : Option ν :=
  (m.entries.find? fun e => e.1 = k).map Prod.snd

def insert (m : SortedMap κ ν) (k : κ) (v : ν) : SortedMap κ ν :=
  ⟨insertList k v m.entries, pairwise_insertList k v m.sorted⟩

def erase (m : SortedMap κ ν) (k : κ) : SortedMap κ ν :=
  ⟨m.entries.filter fun e => e.1 ≠ k, m.sorted.filter _⟩

@[simp] theorem find_empty (k : κ) : (empty : SortedMap κ ν).find k = none := rfl

theorem find_insert (m : SortedMap κ ν) (k k' : κ) (v : ν) :
    (m.insert k v).find k' = if k' = k then some v else m.find k' := by
  obtain ⟨es, sorted⟩ := m
  simp only [find, insert]
  induction es with
  | nil => by_cases h : k' = k <;> simp [insertList, h, Ne.symm]
  | cons e es ih =>
    obtain ⟨head, tail⟩ := List.pairwise_cons.mp sorted
    simp only [insertList]
    split
    · by_cases h : k' = k
      · simp [h]
      · simp [List.find?_cons, h, Ne.symm h]
    · split
      · rename_i eq
        by_cases h : k' = k
        · simp [h]
        · have : e.1 ≠ k' := fun he => h (he ▸ eq.symm)
          simp [h, Ne.symm h, this]
      · rename_i neq
        by_cases he : e.1 = k'
        · have : k' ≠ k := fun h => neq (h ▸ he.symm)
          simp [he, this]
        · simpa [List.find?_cons, he] using ih tail

theorem find_erase (m : SortedMap κ ν) (k k' : κ) :
    (m.erase k).find k' = if k' = k then none else m.find k' := by
  simp only [find, erase]
  by_cases h : k' = k
  · subst h
    have : (m.entries.filter fun e => e.1 ≠ k').find? (fun e => e.1 = k') = none := by
      rw [List.find?_eq_none]
      intro e he
      simpa using (List.mem_filter.mp he).2
    rw [this, if_pos rfl, Option.map_none]
  · rw [if_neg h, List.find?_filter]
    congr 2
    funext e
    by_cases he : e.1 = k'
    · simp [he, h]
    · simp [he]

theorem mem_entries {m : SortedMap κ ν} {k : κ} {v : ν} :
    (k, v) ∈ m.entries ↔ m.find k = some v := by
  obtain ⟨es, sorted⟩ := m
  simp only [find]
  induction es with
  | nil => simp
  | cons e es ih =>
    obtain ⟨head, tail⟩ := List.pairwise_cons.mp sorted
    by_cases he : e.1 = k
    · have absent : (k, v) ∉ es := fun h => (ne_of_lt (head _ h)) he
      simp only [List.mem_cons, absent, or_false, List.find?_cons, he, decide_true, Option.map_some,
        Option.some.injEq]
      constructor
      · rintro rfl
        rfl
      · rintro rfl
        exact Prod.ext he.symm rfl
    · have differ : (k, v) ≠ e := fun h => he (by rw [← h])
      simp only [List.mem_cons, differ, false_or, List.find?_cons, he, decide_false]
      exact ih tail

end SortedMap

/-! ## Multimaps -/

variable [LinearOrder ν]

/-- A finite set of key-value pairs in strictly increasing order, keys first. -/
structure MultiMap (κ ν : Type*) [LinearOrder κ] [LinearOrder ν] where
  entries : List (κ ×ₗ ν)
  sorted : entries.Pairwise (· < ·)

namespace MultiMap

/-- The pair `(k, v)` is stored. -/
def Has (m : MultiMap κ ν) (k : κ) (v : ν) : Prop := toLex (k, v) ∈ m.entries

instance (m : MultiMap κ ν) (k : κ) (v : ν) : Decidable (m.Has k v) :=
  inferInstanceAs (Decidable (_ ∈ _))

def empty : MultiMap κ ν := ⟨[], List.Pairwise.nil⟩

theorem pairwise_orderedInsert {l : List (κ ×ₗ ν)} {e : κ ×ₗ ν} (h : l.Pairwise (· < ·))
    (new : e ∉ l) : (l.orderedInsert (· ≤ ·) e).Pairwise (· < ·) := by
  have le : (l.orderedInsert (· ≤ ·) e).Pairwise (· ≤ ·) :=
    List.Pairwise.orderedInsert e l (h.imp le_of_lt)
  have nodup : (l.orderedInsert (· ≤ ·) e).Nodup :=
    (List.perm_orderedInsert (· ≤ ·) e l).nodup_iff.mpr
      (List.nodup_cons.mpr ⟨new, h.imp ne_of_lt⟩)
  exact (le.and nodup).imp fun ⟨h, h'⟩ => lt_of_le_of_ne h h'

/-- Stores the pair; a pair already stored is kept as it is. -/
def put (m : MultiMap κ ν) (k : κ) (v : ν) : MultiMap κ ν :=
  if h : toLex (k, v) ∈ m.entries then m
  else ⟨m.entries.orderedInsert (· ≤ ·) (toLex (k, v)), pairwise_orderedInsert m.sorted h⟩

def del (m : MultiMap κ ν) (k : κ) (v : ν) : MultiMap κ ν :=
  ⟨m.entries.filter fun e => e ≠ toLex (k, v), m.sorted.filter _⟩

/-- The least value stored under `k`. -/
def firstDup (m : MultiMap κ ν) (k : κ) : Option ν :=
  (m.entries.find? fun e => (ofLex e).1 = k).map fun e => (ofLex e).2

@[simp] theorem has_empty (k : κ) (v : ν) : ¬ (empty : MultiMap κ ν).Has k v := by
  simp [Has, empty]

theorem has_put {m : MultiMap κ ν} {k k' : κ} {v v' : ν} :
    (m.put k v).Has k' v' ↔ (k' = k ∧ v' = v) ∨ m.Has k' v' := by
  unfold put
  split
  · rename_i stored
    constructor
    · exact Or.inr
    · rintro (⟨rfl, rfl⟩ | h)
      · exact stored
      · exact h
  · simp [Has]

theorem has_del {m : MultiMap κ ν} {k k' : κ} {v v' : ν} :
    (m.del k v).Has k' v' ↔ ¬(k' = k ∧ v' = v) ∧ m.Has k' v' := by
  simp only [Has, del, List.mem_filter, decide_eq_true_eq, ne_eq, toLex_inj, Prod.mk.injEq]
  exact And.comm

/-- Deleting a pair that is not stored changes nothing. -/
theorem del_of_not_has {m : MultiMap κ ν} {k : κ} {v : ν} (h : ¬ m.Has k v) : m.del k v = m := by
  obtain ⟨es, sorted⟩ := m
  simp only [del, MultiMap.mk.injEq, List.filter_eq_self, decide_eq_true_eq]
  rintro e he rfl
  exact h he

theorem has_of_firstDup {m : MultiMap κ ν} {k : κ} {v : ν} (h : m.firstDup k = some v) :
    m.Has k v := by
  obtain ⟨e, found, rfl⟩ := Option.map_eq_some_iff.mp h
  have key : (ofLex e).1 = k := by simpa using List.find?_some found
  subst key
  exact List.mem_of_find?_eq_some found

theorem firstDup_eq_none {m : MultiMap κ ν} {k : κ} :
    m.firstDup k = none ↔ ∀ v, ¬ m.Has k v := by
  simp only [firstDup, Option.map_eq_none_iff, List.find?_eq_none, decide_eq_true_eq, Has]
  constructor
  · intro h v hv
    exact h _ hv rfl
  · rintro h e he rfl
    exact h (ofLex e).2 he

end MultiMap

end OrderedStore
