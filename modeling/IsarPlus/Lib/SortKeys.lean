import IsarPlus.Lib.SelectAnswers

/-!
# Sorting by several keys

Each key has a value for every element and a direction. The first key on which two elements differ
decides their order. A list that is sorted by one reading of the keys may be unsorted by another
one, just when some pair of its elements is the other way around.
-/

namespace SortKeys
open Std (TransCmp OrientedCmp ReflCmp)

variable {κ α β : Type} [LinearOrder β]

section
variable (value : κ → α → β) (descending : κ → Bool)

/-- The order by one key. -/
def keyOrder (key : κ) (a b : α) : Ordering :=
  if descending key then cmp (value key b) (value key a) else cmp (value key a) (value key b)

/-- The order by all keys. -/
def orderBy : List κ → α → α → Ordering
  | [] => fun _ _ => .eq
  | key :: sort => compareLex (keyOrder value descending key) (orderBy sort)

/-- The first key on which the elements differ has them in its direction. -/
def InOrder (sort : List κ) (a b : α) : Prop :=
  ∀ before key after, sort = before ++ key :: after → (∀ k ∈ before, value k a = value k b) →
    value key a ≠ value key b →
      if descending key then value key b < value key a else value key a < value key b

end

variable {value : κ → α → β} {descending : κ → Bool}

theorem keyOrder_eq_eq {key : κ} {a b : α} :
    keyOrder value descending key a b = .eq ↔ value key a = value key b := by
  unfold keyOrder
  split
  · rw [cmp_eq_eq_iff, eq_comm]
  · rw [cmp_eq_eq_iff]

theorem keyOrder_eq_lt {key : κ} {a b : α} : keyOrder value descending key a b = .lt ↔
    if descending key then value key b < value key a else value key a < value key b := by
  unfold keyOrder
  split <;> rw [cmp_eq_lt_iff]

theorem keyOrder_eq_gt {key : κ} {a b : α} : keyOrder value descending key a b = .gt ↔
    if descending key then value key a < value key b else value key b < value key a := by
  unfold keyOrder
  split <;> rw [cmp_eq_gt_iff]

theorem transCmp_keyOrder (key : κ) : TransCmp (keyOrder value descending key) := by
  unfold keyOrder
  cases descending key with
  | false => exact Sql.transCmp_cmp (value key)
  | true => exact Sql.transCmp_flip (Sql.transCmp_cmp (value key))

theorem transCmp_orderBy (sort : List κ) : TransCmp (orderBy value descending sort) := by
  induction sort with
  | nil => exact { eq_swap := rfl, isLE_trans := fun _ _ => rfl }
  | cons key sort ih =>
    have first : TransCmp (keyOrder value descending key) := transCmp_keyOrder key
    exact inferInstanceAs (TransCmp (compareLex (keyOrder value descending key)
      (orderBy value descending sort)))

theorem orderBy_cons (key : κ) (sort : List κ) (a b : α) :
    orderBy value descending (key :: sort) a b =
      (keyOrder value descending key a b).then (orderBy value descending sort a b) := rfl

theorem orderBy_eq_eq {sort : List κ} {a b : α} :
    orderBy value descending sort a b = .eq ↔ ∀ key ∈ sort, value key a = value key b := by
  induction sort with
  | nil => exact iff_of_true rfl nofun
  | cons key sort ih =>
    rw [orderBy_cons, Ordering.then_eq_eq, ih, keyOrder_eq_eq, List.forall_mem_cons]

theorem inOrder_cons {key : κ} {sort : List κ} {a b : α} :
    InOrder value descending (key :: sort) a b ↔
      keyOrder value descending key a b = .lt ∨
        value key a = value key b ∧ InOrder value descending sort a b := by
  constructor
  · intro ordered
    by_cases same : value key a = value key b
    · refine Or.inr ⟨same, fun before k after eq agree differ => ?_⟩
      refine ordered (key :: before) k after (congrArg (key :: ·) eq) ?_ differ
      intro k' mem
      rcases List.mem_cons.mp mem with first | later
      · exact first ▸ same
      · exact agree k' later
    · exact Or.inl (keyOrder_eq_lt.mpr (ordered [] key sort rfl nofun same))
  · intro first before k after eq agree differ
    cases before with
    | nil =>
      cases eq
      rcases first with less | ⟨same, -⟩
      · exact keyOrder_eq_lt.mp less
      · exact absurd same differ
    | cons k' before =>
      cases eq
      have same := agree key List.mem_cons_self
      rcases first with less | ⟨-, later⟩
      · rw [keyOrder_eq_eq.mpr same] at less
        cases less
      · exact later before k after rfl (fun k' mem => agree k' (List.mem_cons_of_mem _ mem)) differ

/-- Elements are in order if the order by all keys says so. -/
theorem inOrder_iff {sort : List κ} {a b : α} :
    InOrder value descending sort a b ↔ (orderBy value descending sort a b).isLE = true := by
  induction sort with
  | nil => exact iff_of_true (fun before _ _ eq => by simp at eq) rfl
  | cons key sort ih =>
    rw [inOrder_cons, orderBy_cons, ih, ← @keyOrder_eq_eq _ _ _ _ value descending]
    cases keyOrder value descending key a b with
    | lt => exact iff_of_true (Or.inl rfl) rfl
    | eq => simp [Ordering.then]
    | gt => simp [Ordering.then]

theorem not_inOrder_iff {sort : List κ} {a b : α} :
    ¬ InOrder value descending sort a b ↔ orderBy value descending sort a b = .gt := by
  rw [inOrder_iff]
  cases orderBy value descending sort a b <;> simp

/-! ## Two orders -/

/-- A list sorted by an order has its neighbours in another order just when no two of its elements
are the other way around. -/
theorem isChain_iff {order order' : α → α → Ordering} (trans : TransCmp order)
    (trans' : TransCmp order') {rows result : List α} (perm : result.Perm rows)
    (sorted : result.Pairwise fun a b => (order a b).isLE = true)
    (coarse : ∀ a ∈ rows, ∀ b ∈ rows, order a b = .eq → order' a b = .eq) :
    (result.IsChain fun a b => (order' a b).isLE = true) ↔
      ∀ a ∈ rows, ∀ b ∈ rows, order a b = .lt → order' a b ≠ .gt := by
  constructor
  · intro chain a memA b memB less greater
    have transitive : Trans (fun a b => (order' a b).isLE = true)
        (fun a b => (order' a b).isLE = true) fun a b => (order' a b).isLE = true :=
      ⟨TransCmp.isLE_trans⟩
    have sorted' := List.isChain_iff_pairwise.mp chain
    have symm : Std.Symm fun x y => ((order x y).isLE = true ∧ (order' x y).isLE = true) ∨
        ((order y x).isLE = true ∧ (order' y x).isLE = true) := ⟨fun _ _ => Or.symm⟩
    have either := (sorted.and sorted').imp fun {x y} both =>
      (Or.inl both : ((order x y).isLE = true ∧ (order' x y).isLE = true) ∨
        ((order y x).isLE = true ∧ (order' y x).isLE = true))
    have ne : a ≠ b := by
      intro same
      have equal : order b b = .eq := ReflCmp.compare_self
      rw [same, equal] at less
      cases less
    rcases either.forall (perm.mem_iff.mpr memA) (perm.mem_iff.mpr memB) ne with
      ⟨-, le⟩ | ⟨le, -⟩
    · rw [greater] at le
      cases le
    · have swap : order b a = (order a b).swap := OrientedCmp.eq_swap
      rw [swap, less] at le
      cases le
  · intro agree
    refine (sorted.imp_of_mem fun {a b} memA memB le => ?_).isChain
    have memA := perm.mem_iff.mp memA
    have memB := perm.mem_iff.mp memB
    cases eq : order a b with
    | lt =>
      have notGreater := agree a memA b memB eq
      cases eq' : order' a b with
      | gt => exact absurd eq' notGreater
      | lt | eq => rfl
    | eq =>
      rw [coarse a memA b memB eq]
      rfl
    | gt =>
      rw [eq] at le
      cases le

variable {compared : κ → α → β}

/-- Two readings of the keys order two elements the other way around where the first key on which
they are told apart does so, or else has the same value and leaves it to the other keys. -/
theorem reversed_iff {sort : List κ} {a b : α}
    (coarse : ∀ key ∈ sort, compared key a = compared key b → value key a = value key b) :
    orderBy compared descending sort a b = .lt ∧ orderBy value descending sort a b = .gt ↔
      ∃ before key after, sort = before ++ key :: after ∧
        (∀ k ∈ before, compared k a = compared k b) ∧
        keyOrder compared descending key a b = .lt ∧
        (keyOrder value descending key a b = .gt ∨
          value key a = value key b ∧ ¬ InOrder value descending after a b) := by
  induction sort with
  | nil =>
    constructor
    · intro ⟨less, _⟩
      cases less
    · intro ⟨before, key, after, eq, _⟩
      cases before <;> cases eq
  | cons key sort ih =>
    have first := coarse key List.mem_cons_self
    have others := fun k mem => coarse k (List.mem_cons_of_mem key mem)
    rw [orderBy_cons, orderBy_cons]
    constructor
    · intro ⟨less, greater⟩
      by_cases same : compared key a = compared key b
      · rw [keyOrder_eq_eq.mpr same] at less
        rw [keyOrder_eq_eq.mpr (first same)] at greater
        obtain ⟨before, k, after, eq, agree, told⟩ := (ih others).mp ⟨less, greater⟩
        refine ⟨key :: before, k, after, congrArg (key :: ·) eq, fun k' mem => ?_, told⟩
        rcases List.mem_cons.mp mem with here | later
        · exact here ▸ same
        · exact agree k' later
      · refine ⟨[], key, sort, rfl, nofun, ?_, ?_⟩
        · cases told : keyOrder compared descending key a b with
          | lt => rfl
          | eq => exact absurd (keyOrder_eq_eq.mp told) same
          | gt =>
            rw [told] at less
            cases less
        · cases told : keyOrder value descending key a b with
          | lt =>
            rw [told] at greater
            cases greater
          | eq =>
            rw [told] at greater
            exact Or.inr ⟨keyOrder_eq_eq.mp told, not_inOrder_iff.mpr greater⟩
          | gt => exact Or.inl rfl
    · intro ⟨before, k, after, eq, agree, less, against⟩
      cases before with
      | nil =>
        cases eq
        rw [less]
        refine ⟨rfl, ?_⟩
        rcases against with greater | ⟨same, later⟩
        · rw [greater]
          rfl
        · rw [keyOrder_eq_eq.mpr same]
          exact not_inOrder_iff.mp later
      | cons k' before =>
        cases eq
        have same := agree key List.mem_cons_self
        rw [keyOrder_eq_eq.mpr same, keyOrder_eq_eq.mpr (first same)]
        exact (ih others).mpr
          ⟨before, k, after, rfl, fun k' mem => agree k' (List.mem_cons_of_mem _ mem), less, against⟩

end SortKeys
