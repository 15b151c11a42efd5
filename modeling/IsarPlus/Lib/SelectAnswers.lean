import IsarPlus.Lib.SelectSql
import Mathlib

/-!
# Answers of SELECT statements

When two orders allow the same answers, and when two groupings do. A statement leaves the order of
equal rows and the choice of a row of each group open, so that every pair of rows matters.
-/

namespace Sql
open Std (ReflCmp OrientedCmp TransCmp)

variable {R : Type}

/-! ## Orders -/

theorem isLE_cmp {α : Type} [LinearOrder α] {x y : α} : (cmp x y).isLE = true ↔ x ≤ y := by
  rw [← not_lt, ← cmp_eq_gt_iff]
  cases cmp x y <;> decide

theorem cmp_toLex_left {α β : Type} [LinearOrder α] [LinearOrder β] (x y : α) (z : β) :
    cmp (toLex (x, z)) (toLex (y, z)) = cmp x y := by
  have less (x y : α) : toLex (x, z) < toLex (y, z) ↔ x < y := by
    rw [Prod.Lex.toLex_lt_toLex]
    exact or_iff_left fun h => lt_irrefl z h.2
  unfold cmp cmpUsing
  rw [if_congr (less x y) rfl (if_congr (less y x) rfl rfl)]

theorem cmp_toLex_right {α β : Type} [LinearOrder α] [LinearOrder β] (x : α) (y z : β) :
    cmp (toLex (x, y)) (toLex (x, z)) = cmp y z := by
  have less (y z : β) : toLex (x, y) < toLex (x, z) ↔ y < z := by
    rw [Prod.Lex.toLex_lt_toLex]
    exact ⟨fun h => h.elim (fun lt => absurd lt (lt_irrefl x)) And.right, fun h => Or.inr ⟨rfl, h⟩⟩
  unfold cmp cmpUsing
  rw [if_congr (less y z) rfl (if_congr (less z y) rfl rfl)]

/-- The binary collation compares texts as they are. -/
theorem order_texts (s t : List Char) :
    (Value.text s).order false (.text t) = @cmp _ _ LinearOrder.toDecidableLT s t := by
  rw [Value.order, Value.sortKey, Value.sortKey, cmp_toLex_right, cmp_toLex_right,
    if_neg Bool.false_ne_true, if_neg Bool.false_ne_true, cmp_toLex_left]

theorem cmp_toLex_of_ne {α β : Type} [LinearOrder α] [LinearOrder β] {x y : α} (ne : x ≠ y)
    (u v : β) : cmp (toLex (x, u)) (toLex (y, v)) = cmp x y := by
  have less {z w : α} (ne : z ≠ w) (c d : β) : toLex (z, c) < toLex (w, d) ↔ z < w := by
    rw [Prod.Lex.toLex_lt_toLex]
    exact or_iff_left fun h => ne h.1
  unfold cmp cmpUsing
  simp only [less ne, less ne.symm]

/-- `NOCASE` compares the folded texts up to the first `U+0000`; the lengths decide only where these
are equal. -/
theorem order_texts_nocase {s t : List Char} (differ : noCase (cString s) ≠ noCase (cString t)) :
    (Value.text s).order true (.text t) =
      @cmp _ _ LinearOrder.toDecidableLT (noCase (cString s)) (noCase (cString t)) := by
  rw [Value.order, Value.sortKey, Value.sortKey, cmp_toLex_right, cmp_toLex_right, if_pos rfl,
    if_pos rfl]
  exact cmp_toLex_of_ne differ _ _

/-- No collation changes the value: it is no text, or one without capital letters and `U+0000`. -/
def Value.Folded (v : Value) : Prop := ∀ s, v = .text s → noCase s = s ∧ '\u0000' ∉ s

/-- Folded texts are compared alike by both collations. -/
theorem order_folded_texts {s t : List Char} (foldedS : noCase s = s) (foldedT : noCase t = t)
    (endsS : '\u0000' ∉ s) (endsT : '\u0000' ∉ t) :
    (Value.text s).order true (.text t) = (Value.text s).order false (.text t) := by
  have whole {s : List Char} (ends : '\u0000' ∉ s) : cString s = s :=
    List.takeWhile_eq_self_iff.mpr fun c mem => decide_eq_true fun eq => ends (eq ▸ mem)
  by_cases same : s = t
  · rw [same, Value.order, Value.order, cmp_self_eq_eq, cmp_self_eq_eq]
  · have keyS : noCase (cString s) = s := by rw [whole endsS, foldedS]
    have keyT : noCase (cString t) = t := by rw [whole endsT, foldedT]
    rw [order_texts, order_texts_nocase (by rwa [keyS, keyT]), keyS, keyT]

/-- Collations make no difference to folded values. -/
theorem order_of_folded {v w : Value} (foldedV : v.Folded) (foldedW : w.Folded) (nocase : Bool) :
    v.order nocase w = v.order false w := by
  cases nocase with
  | false => rfl
  | true =>
    cases v with
    | text s =>
      cases w with
      | text t =>
        obtain ⟨lowerS, endsS⟩ := foldedV s rfl
        obtain ⟨lowerT, endsT⟩ := foldedW t rfl
        exact order_folded_texts lowerS lowerT endsS endsT
      | _ =>
        rw [Value.order, Value.order, Value.sortKey, Value.sortKey, Value.sortKey, Value.sortKey,
          cmp_toLex_of_ne (by decide), cmp_toLex_of_ne (by decide)]
    | _ =>
      cases w with
      | text t =>
        rw [Value.order, Value.order, Value.sortKey, Value.sortKey, Value.sortKey, Value.sortKey,
          cmp_toLex_of_ne (by decide), cmp_toLex_of_ne (by decide)]
      | _ => rfl

instance transCmp_cmp {α : Type} [LinearOrder α] (f : R → α) :
    TransCmp fun a b : R => cmp (f a) (f b) where
  eq_swap := (cmp_swap _ _).symm
  isLE_trans h h' := isLE_cmp.mpr ((isLE_cmp.mp h).trans (isLE_cmp.mp h'))

instance transCmp_order (column : R → String → Value) (key : Key) : TransCmp (key.order column) :=
  transCmp_cmp fun r : R => (column r key.column).sortKey key.nocase

theorem transCmp_flip {order : R → R → Ordering} (trans : TransCmp order) :
    TransCmp fun a b => order b a where
  eq_swap := OrientedCmp.eq_swap
  isLE_trans h h' := TransCmp.isLE_trans h' h

instance transCmp_term (column : R → String → Value) (term : Term) :
    TransCmp (term.order column) := by
  unfold Term.order
  cases term.descending with
  | false => exact transCmp_order column term.key
  | true => exact transCmp_flip (transCmp_order column term.key)

theorem transCmp_rowOrder (column : R → String → Value) (terms : List Term) :
    TransCmp (rowOrder column terms) := by
  induction terms with
  | nil => exact { eq_swap := rfl, isLE_trans := fun _ _ => rfl }
  | cons term terms ih =>
    exact inferInstanceAs (TransCmp (compareLex (term.order column) (rowOrder column terms)))

theorem exists_perm_cons {a : R} {rows : List R} (mem : a ∈ rows) :
    ∃ rest, rows.Perm (a :: rest) := by
  obtain ⟨front, back, rfl⟩ := List.append_of_mem mem
  exact ⟨front ++ back, List.perm_middle⟩

/-- Every answer in one order is an answer in the other just when no two rows are the other way. -/
theorem sorted_iff {order order' : R → R → Ordering} [TransCmp order] [ReflCmp order']
    {rows : List R} :
    (∀ result : List R, result.Perm rows → (result.Pairwise fun a b => (order a b).isLE) →
        result.Pairwise fun a b => (order' a b).isLE) ↔
      ∀ a ∈ rows, ∀ b ∈ rows, order' a b = .gt → order a b = .gt := by
  constructor
  · intro all a memA b memB greater
    by_contra less
    have le : (order a b).isLE = true := by
      cases eq : order a b with
      | gt => exact absurd eq less
      | lt => rfl
      | eq => rfl
    have ne : b ≠ a := by
      intro same
      have equal : order' a a = .eq := ReflCmp.compare_self
      rw [same, equal] at greater
      cases greater
    -- the two rows first, then sorted: the sort is stable and leaves them as they are
    obtain ⟨rest, perm⟩ : ∃ rest, rows.Perm (a :: b :: rest) := by
      obtain ⟨rest, perm⟩ := exists_perm_cons memA
      have later : b ∈ rest := by
        rcases List.mem_cons.mp (perm.mem_iff.mp memB) with same | later
        · exact absurd same ne
        · exact later
      obtain ⟨rest', perm'⟩ := exists_perm_cons later
      exact ⟨rest', perm.trans (perm'.cons a)⟩
    have trans (x y z : R) (h : (order x y).isLE = true) (h' : (order y z).isLE = true) :
        (order x z).isLE = true := TransCmp.isLE_trans h h'
    have total (x y : R) : ((order x y).isLE || (order y x).isLE) = true := by
      have swap : order y x = (order x y).swap := OrientedCmp.eq_swap
      rw [swap]
      cases order x y <;> rfl
    have sorted := all _ ((List.mergeSort_perm _ fun x y => (order x y).isLE).trans perm.symm)
      (List.pairwise_mergeSort trans total (a :: b :: rest))
    have first : [a, b].Sublist (a :: b :: rest) :=
      ((List.nil_sublist rest).cons_cons b).cons_cons a
    have pair := sorted.sublist (List.pair_sublist_mergeSort trans total le first)
    have le' := List.pairwise_pair.mp pair
    rw [greater] at le'
    cases le'
  · intro all result perm sorted
    refine sorted.imp_of_mem fun {a b} memA memB le => ?_
    by_contra greater
    have gt : order' a b = .gt := by
      cases eq : order' a b with
      | gt => rfl
      | lt => exact absurd (by rw [eq]; rfl) greater
      | eq => exact absurd (by rw [eq]; rfl) greater
    have greater' := all a (perm.mem_iff.mp memA) b (perm.mem_iff.mp memB) gt
    simp [greater'] at le

/-- Two ways to sort the same rows differ in rows only that compare equal. -/
theorem forall₂_of_sorted {order : R → R → Ordering} [TransCmp order] {rows rows' : List R}
    (perm : rows.Perm rows') (sorted : rows.Pairwise fun a b => (order a b).isLE)
    (sorted' : rows'.Pairwise fun a b => (order a b).isLE) :
    List.Forall₂ (fun a b => order a b = .eq) rows rows' := by
  have reflexive (a : R) : order a a = .eq := ReflCmp.compare_self
  let preorder : Preorder R := {
    le := fun a b => (order a b).isLE = true
    le_refl := fun a => by rw [reflexive]; rfl
    le_trans := fun _ _ _ => TransCmp.isLE_trans }
  let classOf : R → Antisymmetrization R (· ≤ ·) := toAntisymmetrization (· ≤ ·)
  have equal {a b : R} (same : classOf a = classOf b) : order a b = .eq := by
    obtain ⟨le, ge⟩ : a ≤ b ∧ b ≤ a := Quotient.exact same
    have le : (order a b).isLE = true := le
    have ge : (order b a).isLE = true := ge
    have swap : order b a = (order a b).swap := OrientedCmp.eq_swap
    rw [swap] at ge
    cases eq : order a b <;> simp [eq] at le ge ⊢
  have classes {l : List R} (sorted : l.Pairwise fun a b => (order a b).isLE) :
      (l.map classOf).Pairwise (· ≤ ·) :=
    List.pairwise_map.mpr (sorted.imp fun le =>
      toAntisymmetrization_le_toAntisymmetrization_iff.mpr le)
  have same : rows.map classOf = rows'.map classOf :=
    (perm.map classOf).eq_of_pairwise' (classes sorted) (classes sorted')
  have all : List.Forall₂ (fun a b => classOf a = classOf b) rows rows' := by
    rw [← List.forall₂_eq_eq_eq, List.forall₂_map_left_iff, List.forall₂_map_right_iff] at same
    exact same
  exact all.imp fun _ _ => equal

/-! ## Groups -/

section
variable {same same' : R → R → Prop}

/-- There is one row of every group only. -/
theorem eq_of_apart (equivalence : Equivalence same) {result : List R}
    (apart : result.Pairwise fun a b => ¬ same a b) {a b : R} (memA : a ∈ result)
    (memB : b ∈ result) (together : same a b) : a = b := by
  have : Std.Symm fun a b => ¬ same a b := ⟨fun _ _ h h' => h (equivalence.symm h')⟩
  by_contra ne
  exact apart.forall memA memB ne together

/-- Two rows of different groups can both stand for their groups. -/
theorem exists_onePer (equivalence : Equivalence same) {rows : List R} {a b : R} (memA : a ∈ rows)
    (memB : b ∈ rows) (apart : ¬ same a b) :
    ∃ result, OnePer same rows result ∧ a ∈ result ∧ b ∈ result := by
  classical
  let differs (x y : R) : Prop := ¬ same x y
  have trans {x y z : R} (h : differs x z) : differs x y ∨ differs y z := by
    by_contra both
    obtain ⟨first, second⟩ := not_or.mp both
    exact h (equivalence.trans (not_not.mp first) (not_not.mp second))
  have last : List.pwFilter differs [a, b] = [a, b] :=
    List.pwFilter_eq_self.mpr (List.pairwise_pair.mpr apart)
  have keeps (front : List R) :
      ∀ r ∈ [a, b], r ∈ List.pwFilter differs (front ++ [a, b]) := by
    induction front with
    | nil => exact fun r mem => last.symm ▸ mem
    | cons x front ih =>
      intro r mem
      rw [List.cons_append]
      by_cases new : ∀ y ∈ List.pwFilter differs (front ++ [a, b]), differs x y
      · rw [List.pwFilter_cons_of_pos new]
        exact List.mem_cons_of_mem _ (ih r mem)
      · rw [List.pwFilter_cons_of_neg new]
        exact ih r mem
  refine ⟨List.pwFilter differs (rows ++ [a, b]), ⟨fun r mem => ?_, List.pairwise_pwFilter _,
    fun r mem => ?_⟩, keeps rows a (by simp), keeps rows b (by simp)⟩
  · rcases List.mem_append.mp (List.pwFilter_subset _ mem) with old | new
    · exact old
    · rcases List.mem_pair.mp new with rfl | rfl
      · exact memA
      · exact memB
  · by_contra none_
    have all := (List.forall_mem_pwFilter @trans r (rows ++ [a, b])).mp
      fun r' mem' same_ => none_ ⟨r', mem', same_⟩
    exact all r (List.mem_append_left _ mem) (equivalence.refl r)

/-- Every answer with one grouping is an answer with the other just when they group the rows alike. -/
theorem onePer_iff (equivalence : Equivalence same) (equivalence' : Equivalence same')
    {rows : List R} :
    (∀ result, OnePer same rows result → OnePer same' rows result) ↔
      ∀ a ∈ rows, ∀ b ∈ rows, same' a b ↔ same a b := by
  constructor
  · intro all a memA b memB
    have coarser : ∀ a ∈ rows, ∀ b ∈ rows, same' a b → same a b := by
      intro a memA b memB together
      by_contra apart
      obtain ⟨result, answer, inA, inB⟩ := exists_onePer equivalence memA memB apart
      have eq := eq_of_apart equivalence' (all result answer).apart inA inB together
      exact apart (eq ▸ equivalence.refl a)
    refine ⟨coarser a memA b memB, fun together => ?_⟩
    obtain ⟨result, answer, inA, -⟩ : ∃ result, OnePer same rows result ∧ a ∈ result ∧ True := by
      by_cases others : ∃ c ∈ rows, ¬ same a c
      · obtain ⟨c, memC, apart⟩ := others
        obtain ⟨result, answer, inA, -⟩ := exists_onePer equivalence memA memC apart
        exact ⟨result, answer, inA, trivial⟩
      · refine ⟨[a], ⟨fun r mem => (List.mem_singleton.mp mem) ▸ memA,
          List.pairwise_singleton _ _, fun r mem => ⟨a, List.mem_singleton_self a, ?_⟩⟩,
          List.mem_singleton_self a, trivial⟩
        by_contra apart
        exact others ⟨r, mem, fun h => apart (equivalence.symm h)⟩
    obtain ⟨r, inR, representative⟩ := (all result answer).all b memB
    have near : same a r :=
      equivalence.trans together (coarser b memB r (answer.sub r inR) representative)
    rw [← eq_of_apart equivalence answer.apart inA inR near] at representative
    exact equivalence'.symm representative
  · intro alike result answer
    refine ⟨answer.sub, answer.apart.imp_of_mem fun {a b} memA memB apart together => apart
      ((alike a (answer.sub a memA) b (answer.sub b memB)).mp together), fun r mem => ?_⟩
    obtain ⟨r', mem', together⟩ := answer.all r mem
    exact ⟨r', mem', (alike r mem r' (answer.sub r' mem')).mpr together⟩

end

theorem equivalence_sameGroup (column : R → String → Value) (keys : List Key) :
    Equivalence (sameGroup column keys) where
  refl a _ _ := cmp_self_eq_eq _
  symm {a b} h key mem := by
    have same := (cmp_eq_eq_iff _ _).mp (h key mem)
    exact (cmp_eq_eq_iff _ _).mpr same.symm
  trans {a b c} h h' key mem := by
    have same := (cmp_eq_eq_iff _ _).mp (h key mem)
    have same' := (cmp_eq_eq_iff _ _).mp (h' key mem)
    exact (cmp_eq_eq_iff _ _).mpr (same.trans same')

end Sql
