import Mathlib.Data.List.Dedup
import Mathlib.Data.List.Induction

/-!
# The first element of each class

A list without the elements whose key came before, and when it holds the first elements of the
classes of another key. Keys may be chained hashes: without collisions, chains of different inputs
end differently.
-/

namespace Firsts

variable {α κ ι : Type*} [DecidableEq κ]

/-- The elements whose key has not been seen before. -/
def firsts (key : α → κ) : List κ → List α → List α
  | _, [] => []
  | seen, a :: rest =>
    if key a ∈ seen then firsts key seen rest else a :: firsts key (key a :: seen) rest

/-- The list holds the first element of each class, in the order of all elements. -/
structure FirstOfEach (key : α → κ) (elements result : List α) : Prop where
  sublist : result.Sublist elements
  first : ∀ before a after, elements = before ++ a :: after →
    (a ∈ result ↔ ∀ e ∈ before, key e ≠ key a)

theorem firsts_sublist (key : α → κ) (seen : List κ) (elements : List α) :
    (firsts key seen elements).Sublist elements := by
  induction elements generalizing seen with
  | nil => exact List.Sublist.refl _
  | cons a rest ih =>
    rw [firsts]
    split
    · exact (ih seen).cons a
    · exact (ih (key a :: seen)).cons_cons a

/-- Only what is seen of the keys matters. -/
theorem firsts_seen (key : α → κ) {seen seen' : List κ} (same : ∀ k, k ∈ seen ↔ k ∈ seen')
    (elements : List α) : firsts key seen elements = firsts key seen' elements := by
  induction elements generalizing seen seen' with
  | nil => rfl
  | cons a rest ih =>
    have more (k : κ) : k ∈ key a :: seen ↔ k ∈ key a :: seen' := by
      rw [List.mem_cons, List.mem_cons, same]
    rw [firsts, firsts, if_congr (same (key a)) (ih same) (congrArg (a :: ·) (ih more))]

theorem firsts_append (key : α → κ) (seen : List κ) (elements others : List α) :
    firsts key seen (elements ++ others) =
      firsts key seen elements ++ firsts key (elements.map key ++ seen) others := by
  induction elements generalizing seen with
  | nil => rfl
  | cons a rest ih =>
    rw [List.cons_append, firsts, firsts]
    by_cases old : key a ∈ seen
    · rw [if_pos old, if_pos old, ih]
      congr 1
      refine firsts_seen key (fun k => ?_) others
      simp only [List.map_cons, List.mem_append, List.mem_cons]
      constructor
      · exact fun mem => mem.imp_left Or.inr
      · rintro ((rfl | mem) | mem)
        · exact Or.inr old
        · exact Or.inl mem
        · exact Or.inr mem
    · rw [if_neg old, if_neg old, ih, List.cons_append]
      congr 2
      refine firsts_seen key (fun k => ?_) others
      simp only [List.map_cons, List.mem_append, List.mem_cons]
      tauto

/-- Keys with the same classes leave the same elements. -/
theorem firsts_congr [DecidableEq ι] {key : α → κ} {key' : α → ι} {before elements : List α}
    (same : ∀ a ∈ before ++ elements, ∀ b ∈ before ++ elements, key a = key b ↔ key' a = key' b) :
    firsts key (before.map key) elements = firsts key' (before.map key') elements := by
  induction elements generalizing before with
  | nil => rfl
  | cons a rest ih =>
    have memA : a ∈ before ++ a :: rest := List.mem_append_right before List.mem_cons_self
    have seen : key a ∈ before.map key ↔ key' a ∈ before.map key' := by
      rw [List.mem_map, List.mem_map]
      refine exists_congr fun e => and_congr_right fun mem => ?_
      exact same e (List.mem_append_left _ mem) a memA
    have within {e : α} (mem : e ∈ before ++ rest) : e ∈ before ++ a :: rest := by
      rw [List.mem_append, List.mem_cons] at *
      tauto
    have within' {e : α} (mem : e ∈ (a :: before) ++ rest) : e ∈ before ++ a :: rest := by
      rw [List.cons_append, List.mem_cons, List.mem_append] at mem
      rw [List.mem_append, List.mem_cons]
      tauto
    have old := ih fun a memA b memB => same a (within memA) b (within memB)
    have new := @ih (a :: before) fun a memA b memB => same a (within' memA) b (within' memB)
    rw [firsts, firsts]
    exact if_congr seen old (congrArg (a :: ·) new)

/-- There is one element for each key. -/
theorem length_firsts (key : α → κ) (elements : List α) :
    (firsts key [] elements).length = (elements.map key).dedup.length := by
  induction elements using List.reverseRecOn with
  | nil => rfl
  | append_singleton elements a ih =>
    have last : firsts key (elements.map key ++ []) [a] =
        if key a ∈ elements.map key then [] else [a] := by
      rw [firsts, List.append_nil]
      rfl
    have perm : (elements.map key ++ [key a]).dedup.Perm (key a :: elements.map key).dedup :=
      (List.perm_append_comm).dedup
    rw [firsts_append, last, List.length_append, ih, List.map_append, List.map_singleton,
      perm.length_eq]
    by_cases old : key a ∈ elements.map key
    · rw [if_pos old, List.dedup_cons_of_mem old]
      rfl
    · rw [if_neg old, List.dedup_cons_of_notMem old]
      rfl

/-- An element is among the first ones that are left if no element before it has its key, and fewer
keys than these come before it. -/
theorem mem_take_firsts {key : α → κ} {before after : List α} {a : α}
    (nodup : (before ++ a :: after).Nodup) (n : Nat) :
    a ∈ (firsts key [] (before ++ a :: after)).take n ↔
      (∀ e ∈ before, key e ≠ key a) ∧ (before.map key).dedup.length < n := by
  obtain ⟨-, nodup', apart⟩ := List.nodup_append.mp nodup
  have absent : a ∉ firsts key [] before := fun mem =>
    apart a ((firsts_sublist key [] before).subset mem) a List.mem_cons_self rfl
  have absent' (seen : List κ) : a ∉ firsts key seen after := fun mem =>
    (List.nodup_cons.mp nodup').1 ((firsts_sublist key seen after).subset mem)
  rw [firsts_append, List.append_nil, List.take_append, List.mem_append, length_firsts,
    or_iff_right fun mem => absent (List.mem_of_mem_take mem), firsts]
  by_cases old : key a ∈ before.map key
  · rw [if_pos old]
    obtain ⟨e, mem, same⟩ := List.mem_map.mp old
    exact iff_of_false (fun mem => absent' _ (List.mem_of_mem_take mem)) fun h => h.1 e mem same
  · rw [if_neg old]
    have fresh : ∀ e ∈ before, key e ≠ key a := fun e mem same =>
      old (List.mem_map.mpr ⟨e, mem, same⟩)
    rw [and_iff_right fresh]
    by_cases room : (before.map key).dedup.length < n
    · obtain ⟨m, eq⟩ := Nat.exists_eq_add_of_lt room
      have left : n - (before.map key).dedup.length = m + 1 := by omega
      rw [left, List.take_succ_cons]
      exact iff_of_true List.mem_cons_self room
    · have left : n - (before.map key).dedup.length = 0 := by omega
      rw [left, List.take_zero]
      exact iff_of_false List.not_mem_nil room

/-- What is left by one key are the first elements of the classes of another one just when the two
keys find the same elements to be new. -/
theorem firstOfEach_take_iff {key : α → κ} {key' : α → ι} {elements : List α}
    (nodup : elements.Nodup) (n : Nat) :
    FirstOfEach key' elements ((firsts key [] elements).take n) ↔
      ∀ before a after, elements = before ++ a :: after →
        ((∀ e ∈ before, key e ≠ key a) ∧ (before.map key).dedup.length < n ↔
          ∀ e ∈ before, key' e ≠ key' a) := by
  have member {before after : List α} {a : α} (eq : elements = before ++ a :: after) :
      a ∈ (firsts key [] elements).take n ↔
        (∀ e ∈ before, key e ≠ key a) ∧ (before.map key).dedup.length < n := by
    rw [eq] at nodup ⊢
    exact mem_take_firsts nodup n
  constructor
  · intro each before a after eq
    exact (member eq).symm.trans (each.first before a after eq)
  · intro agree
    exact {
      sublist := (List.take_sublist _ _).trans (firsts_sublist key [] elements)
      first := fun before a after eq => (member eq).trans (agree before a after eq) }

theorem pairwise_of_splits {R : α → α → Prop} {elements : List α}
    (split : ∀ before b after, elements = before ++ b :: after → ∀ a ∈ before, R a b) :
    elements.Pairwise R := by
  induction elements using List.reverseRecOn with
  | nil => exact List.Pairwise.nil
  | append_singleton elements b ih =>
    refine List.pairwise_append.mpr ⟨ih fun before c after eq => ?_, List.pairwise_singleton R b,
      fun a mem c single => ?_⟩
    · refine split before c (after ++ [b]) ?_
      rw [eq, List.append_assoc, List.cons_append]
    · rw [List.mem_singleton.mp single]
      exact split elements b [] rfl a mem

omit [DecidableEq κ] in
/-- The first elements have different keys. -/
theorem FirstOfEach.apart {key : α → κ} {elements result : List α}
    (each : FirstOfEach key elements result) : result.Pairwise fun a b => key a ≠ key b := by
  have pairs : elements.Pairwise fun a b => b ∈ result → key a ≠ key b :=
    pairwise_of_splits fun before b after eq a mem taken =>
      (each.first before b after eq).mp taken a mem
  exact (pairs.sublist each.sublist).imp_of_mem fun _ memB differ => differ memB

omit [DecidableEq κ] in
/-- Each class has a first element. -/
theorem FirstOfEach.all {key : α → κ} {elements result : List α}
    (each : FirstOfEach key elements result) {a : α} (mem : a ∈ elements) :
    ∃ r ∈ result, key r = key a := by
  classical
  have some_ : (elements.find? fun e => key e = key a).isSome :=
    List.find?_isSome.mpr ⟨a, mem, decide_eq_true rfl⟩
  obtain ⟨r, found⟩ := Option.isSome_iff_exists.mp some_
  obtain ⟨same, before, after, eq, earlier⟩ := List.find?_eq_some_iff_append.mp found
  have same : key r = key a := of_decide_eq_true same
  refine ⟨r, (each.first before r after eq).mpr fun e mem => ?_, same⟩
  have differ := earlier e mem
  rw [Bool.not_eq_true', decide_eq_false_iff_not] at differ
  rw [same]
  exact differ

/-! ## Chained hashes -/

section
variable {β γ : Type*} (hash : β → γ → γ)

/-- The inputs of the hash function on the way through a chain. -/
def hashInputs : γ → List β → List (β × γ)
  | _, [] => []
  | seed, b :: chain => (b, seed) :: hashInputs (hash b seed) chain

/-- No two of these inputs have one hash, and none has the one that chains start with. -/
structure CollisionFree (start : γ) (inputs : List (β × γ)) : Prop where
  injective : ∀ x ∈ inputs, ∀ y ∈ inputs, hash x.1 x.2 = hash y.1 y.2 → x = y
  fresh : ∀ x ∈ inputs, hash x.1 x.2 ≠ start

variable {hash} {start : γ}

theorem hashInputs_concat (chain : List β) (b : β) (seed : γ) :
    hashInputs hash seed (chain ++ [b]) =
      hashInputs hash seed chain ++ [(b, chain.foldl (fun seed b => hash b seed) seed)] := by
  induction chain generalizing seed with
  | nil => rfl
  | cons c chain ih =>
    rw [List.cons_append, hashInputs, hashInputs, ih]
    rfl

/-- Without collisions, different chains have different hashes. -/
theorem chain_injective {chain chain' : List β}
    (free : CollisionFree hash start
      (hashInputs hash start chain ++ hashInputs hash start chain'))
    (same : chain.foldl (fun seed b => hash b seed) start =
      chain'.foldl (fun seed b => hash b seed) start) : chain = chain' := by
  induction chain using List.reverseRecOn generalizing chain' with
  | nil =>
    induction chain' using List.reverseRecOn with
    | nil => rfl
    | append_singleton chain' b _ =>
      rw [List.foldl_concat] at same
      rw [hashInputs_concat] at free
      exact absurd same.symm (free.fresh (b, _) (by simp))
  | append_singleton chain a ih =>
    induction chain' using List.reverseRecOn with
    | nil =>
      rw [List.foldl_concat] at same
      rw [hashInputs_concat] at free
      exact absurd same (free.fresh (a, _) (by simp))
    | append_singleton chain' b _ =>
      rw [List.foldl_concat, List.foldl_concat] at same
      rw [hashInputs_concat, hashInputs_concat] at free
      have eq := free.injective (a, _) (by simp) (b, _) (by simp) same
      obtain ⟨eqA, eqSeed⟩ := Prod.mk.inj eq
      have shorter : CollisionFree hash start
          (hashInputs hash start chain ++ hashInputs hash start chain') := {
        injective := fun x memX y memY => free.injective x (by simp at memX ⊢; tauto) y
          (by simp at memY ⊢; tauto)
        fresh := fun x memX => free.fresh x (by simp at memX ⊢; tauto) }
      rw [eqA, ih shorter eqSeed]

end

end Firsts
