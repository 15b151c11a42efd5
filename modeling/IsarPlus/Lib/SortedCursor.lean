import IsarPlus.Lib.Iteration
import Mathlib.Data.List.TakeWhile

/-!
# Cursors in sorted lists

A cursor stands on an entry of a list, in front of all entries or behind them. Of the entries to
its left the nearest comes first. Entries with the same key stand next to each other; a cursor can
pass all of them in one move.
-/

namespace SortedCursor
open Iteration

/-- Where a cursor stands. -/
inductive Position (α : Type*) where
  | before (right : List α)
  | on (left : List α) (e : α) (right : List α)
  | after (left : List α)

namespace Position

section
variable {α : Type*}

def entry : Position α → Option α
  | on _ e _ => some e
  | _ => none

/-- On the first of the entries to the right. -/
def ahead (left : List α) : List α → Position α
  | [] => after left
  | e :: right => on left e right

/-- On the last of the entries to the left. -/
def behind (right : List α) : List α → Position α
  | [] => before right
  | e :: left => on left e right

def right : Position α → List α
  | before right => right
  | on _ _ right => right
  | after _ => []

def left : Position α → List α
  | before _ => []
  | on left _ _ => left
  | after left => left

@[simp] theorem entry_ahead (left right : List α) : (ahead left right).entry = right.head? := by
  cases right <;> rfl

@[simp] theorem entry_behind (left right : List α) : (behind right left).entry = left.head? := by
  cases left <;> rfl

@[simp] theorem right_ahead (left right : List α) : (ahead left right).right = right.tail := by
  cases right <;> rfl

@[simp] theorem left_behind (left right : List α) : (behind right left).left = left.tail := by
  cases left <;> rfl

/-! ## Moves -/

def next : Position α → Position α
  | before right => ahead [] right
  | on left e right => ahead (e :: left) right
  | after left => after left

def prev : Position α → Position α
  | before right => before right
  | on left e right => behind (e :: right) left
  | after left => behind [] left

section
variable (same : α → α → Bool)

/-- To the next entry with another key. -/
def nextNoDup : Position α → Position α
  | on left e right =>
    ahead ((right.takeWhile (same e)).reverse ++ e :: left) (right.dropWhile (same e))
  | p => p.next

/-- To the last of the previous entries with another key. -/
def prevNoDup : Position α → Position α
  | on left e right =>
    behind ((left.takeWhile (same e)).reverse ++ e :: right) (left.dropWhile (same e))
  | p => p.prev

/-- To the last entry with the same key. -/
def lastDup : Position α → Position α
  | on left e right =>
    behind (right.dropWhile (same e)) ((right.takeWhile (same e)).reverse ++ e :: left)
  | p => p

end

/-- To the first of all entries that is not below. -/
def seek (below : α → Bool) (entries : List α) : Position α :=
  ahead (entries.takeWhile below).reverse (entries.dropWhile below)

/-- To the last of all entries. -/
def last (entries : List α) : Position α := behind [] entries.reverse

/-! ## Scans -/

/-- A scan makes one and the same move with every call. -/
def scan (move : Position α → Position α) (p : Position α) : Option (Option α × Position α) :=
  some ((move p).entry, move p)

theorem entry_next (p : Position α) : p.next.entry = p.right.head? := by
  cases p with
  | before right => exact entry_ahead [] right
  | on left e right => exact entry_ahead (e :: left) right
  | after left => rfl

theorem right_next (p : Position α) : p.next.right = p.right.tail := by
  cases p with
  | before right => exact right_ahead [] right
  | on left e right => exact right_ahead (e :: left) right
  | after left => rfl

theorem entry_prev (p : Position α) : p.prev.entry = p.left.head? := by
  cases p with
  | before right => rfl
  | on left e right => exact entry_behind left (e :: right)
  | after left => exact entry_behind left []

theorem left_prev (p : Position α) : p.prev.left = p.left.tail := by
  cases p with
  | before right => rfl
  | on left e right => exact left_behind left (e :: right)
  | after left => exact left_behind left []

theorem yields_next (p : Position α) : Yields (scan next) p p.right := by
  apply Yields.of_invariant (I := fun p elements => p.right = elements)
  · intro p elements inv
    subst inv
    exact ⟨p.next, by rw [scan, entry_next], right_next p⟩
  · rfl

theorem yields_prev (p : Position α) : Yields (scan prev) p p.left := by
  apply Yields.of_invariant (I := fun p elements => p.left = elements)
  · intro p elements inv
    subst inv
    exact ⟨p.prev, by rw [scan, entry_prev], left_prev p⟩
  · rfl

/-- The entries after `e` that have another key than the one before them. -/
def firsts (same : α → α → Bool) (e : α) : List α → List α
  | [] => []
  | x :: entries => if same e x then firsts same e entries else x :: firsts same x entries

/-- The first entry of every key. -/
def heads (same : α → α → Bool) : List α → List α
  | [] => []
  | e :: entries => e :: firsts same e entries

variable {same : α → α → Bool}

theorem firsts_eq (e : α) (entries : List α) :
    firsts same e entries = heads same (entries.dropWhile (same e)) := by
  induction entries with
  | nil => rfl
  | cons x entries ih =>
    cases eq : same e x with
    | true => simp [firsts, eq, ih]
    | false => simp [firsts, eq, heads]

/-- What a scan to the right passes that leaves out further entries of a key. -/
def newRight (same : α → α → Bool) : Position α → List α
  | before right => heads same right
  | on _ e right => firsts same e right
  | after _ => []

def newLeft (same : α → α → Bool) : Position α → List α
  | before _ => []
  | on left e _ => firsts same e left
  | after left => heads same left

theorem newRight_ahead (left right : List α) :
    (ahead left right).newRight same = (heads same right).tail := by
  cases right <;> rfl

theorem newLeft_behind (left right : List α) :
    (behind right left).newLeft same = (heads same left).tail := by
  cases left <;> rfl

theorem head?_heads (entries : List α) : (heads same entries).head? = entries.head? := by
  cases entries <;> rfl

theorem entry_nextNoDup (p : Position α) :
    (p.nextNoDup same).entry = (p.newRight same).head? := by
  cases p with
  | before right => exact (entry_ahead [] right).trans (head?_heads right).symm
  | on left e right =>
    show _ = (firsts same e right).head?
    rw [firsts_eq, head?_heads]
    exact entry_ahead _ _
  | after left => rfl

theorem newRight_nextNoDup (p : Position α) :
    (p.nextNoDup same).newRight same = (p.newRight same).tail := by
  cases p with
  | before right => exact newRight_ahead [] right
  | on left e right =>
    show _ = (firsts same e right).tail
    rw [firsts_eq]
    exact newRight_ahead _ _
  | after left => rfl

theorem entry_prevNoDup (p : Position α) :
    (p.prevNoDup same).entry = (p.newLeft same).head? := by
  cases p with
  | before right => rfl
  | on left e right =>
    show _ = (firsts same e left).head?
    rw [firsts_eq, head?_heads]
    exact entry_behind _ _
  | after left => exact (entry_behind left []).trans (head?_heads left).symm

theorem newLeft_prevNoDup (p : Position α) :
    (p.prevNoDup same).newLeft same = (p.newLeft same).tail := by
  cases p with
  | before right => rfl
  | on left e right =>
    show _ = (firsts same e left).tail
    rw [firsts_eq]
    exact newLeft_behind _ _
  | after left => exact newLeft_behind left []

theorem yields_nextNoDup (p : Position α) :
    Yields (scan (nextNoDup same)) p (p.newRight same) := by
  apply Yields.of_invariant (I := fun p elements => p.newRight same = elements)
  · intro p elements inv
    subst inv
    exact ⟨p.nextNoDup same, by rw [scan, entry_nextNoDup], newRight_nextNoDup p⟩
  · rfl

theorem yields_prevNoDup (p : Position α) :
    Yields (scan (prevNoDup same)) p (p.newLeft same) := by
  apply Yields.of_invariant (I := fun p elements => p.newLeft same = elements)
  · intro p elements inv
    subst inv
    exact ⟨p.prevNoDup same, by rw [scan, entry_prevNoDup], newLeft_prevNoDup p⟩
  · rfl

/-! ## One entry per key -/

theorem firsts_sublist (e : α) (entries : List α) : (firsts same e entries).Sublist entries := by
  induction entries generalizing e with
  | nil => exact List.Sublist.refl _
  | cons x entries ih =>
    unfold firsts
    split
    · exact (ih e).cons x
    · exact (ih x).cons_cons x

theorem heads_sublist (entries : List α) : (heads same entries).Sublist entries := by
  cases entries with
  | nil => exact List.Sublist.refl _
  | cons e entries => exact (firsts_sublist e entries).cons_cons e

end

end Position

/-- The list has exactly one of the entries of every key, in their order. -/
structure OnePerKey {α κ : Type*} (key : α → κ) (entries chosen : List α) : Prop where
  sublist : chosen.Sublist entries
  apart : chosen.Pairwise fun a b => key a ≠ key b
  all : ∀ e ∈ entries, ∃ c ∈ chosen, key c = key e

namespace Position

section
variable {α κ : Type*} [DecidableEq κ] {key : α → κ}

/-- Two entries of one key. -/
def sameKey (key : α → κ) (a b : α) : Bool := decide (key a = key b)

theorem firsts_covers {e : α} {entries : List α} : ∀ x ∈ entries,
    key x = key e ∨ ∃ c ∈ firsts (sameKey key) e entries, key c = key x := by
  induction entries generalizing e with
  | nil => exact nofun
  | cons y entries ih =>
    intro x mem
    by_cases same : key e = key y
    · rw [firsts, if_pos (show sameKey key e y = true from decide_eq_true same)]
      rcases List.mem_cons.mp mem with rfl | mem
      · exact Or.inl same.symm
      · exact ih x mem
    · rw [firsts, if_neg (by simpa [sameKey] using same)]
      right
      rcases List.mem_cons.mp mem with rfl | mem
      · exact ⟨x, List.mem_cons_self, rfl⟩
      · rcases ih (e := y) x mem with same' | ⟨c, there, same'⟩
        · exact ⟨y, List.mem_cons_self, same'.symm⟩
        · exact ⟨c, List.mem_cons_of_mem y there, same'⟩

/-- Along a list whose keys ascend, the entries that are left are apart. -/
theorem firsts_apart {lt : κ → κ → Prop} (trans : ∀ a b c, lt a b → lt b c → lt a c) {e : α}
    {entries : List α}
    (sorted : (e :: entries).Pairwise fun a b => lt (key a) (key b) ∨ key a = key b) :
    (e :: firsts (sameKey key) e entries).Pairwise fun a b => lt (key a) (key b) := by
  induction entries generalizing e with
  | nil => exact List.pairwise_singleton _ e
  | cons y entries ih =>
    obtain ⟨first, rest⟩ := List.pairwise_cons.mp sorted
    by_cases same : key e = key y
    · rw [firsts, if_pos (show sameKey key e y = true from decide_eq_true same)]
      apply ih
      rw [List.pairwise_cons]
      refine ⟨fun x mem => first x (List.mem_cons_of_mem y mem), (List.pairwise_cons.mp rest).2⟩
    · rw [firsts, if_neg (by simpa [sameKey] using same)]
      have below := (first y List.mem_cons_self).resolve_right same
      have later := ih rest
      rw [List.pairwise_cons]
      refine ⟨?_, later⟩
      intro x mem
      rcases List.mem_cons.mp mem with rfl | mem
      · exact below
      · exact trans _ _ _ below ((List.pairwise_cons.mp later).1 x mem)

theorem onePerKey_heads {lt : κ → κ → Prop} (trans : ∀ a b c, lt a b → lt b c → lt a c)
    (irrefl : ∀ a, ¬ lt a a) {entries : List α}
    (sorted : entries.Pairwise fun a b => lt (key a) (key b) ∨ key a = key b) :
    OnePerKey key entries (heads (sameKey key) entries) where
  sublist := heads_sublist entries
  apart := by
    cases entries with
    | nil => exact List.Pairwise.nil
    | cons e entries =>
      have below := firsts_apart trans sorted
      refine below.imp ?_
      intro a b less same
      rw [same] at less
      exact irrefl _ less
  all := by
    cases entries with
    | nil => exact nofun
    | cons e entries =>
      intro x mem
      rcases List.mem_cons.mp mem with rfl | mem
      · exact ⟨x, List.mem_cons_self, rfl⟩
      · have covered : key x = key e ∨ ∃ c ∈ firsts (sameKey key) e entries, key c = key x :=
          firsts_covers x mem
        rcases covered with same | ⟨c, there, same⟩
        · exact ⟨e, List.mem_cons_self, same.symm⟩
        · exact ⟨c, List.mem_cons_of_mem e there, same⟩

theorem key_eq_of_mem_takeWhile {e x : α} {entries : List α}
    (mem : x ∈ entries.takeWhile (sameKey key e)) : key e = key x := by
  have same := List.mem_takeWhile_imp mem
  exact of_decide_eq_true same

theorem entry_lastDup (left : List α) (e : α) (right : List α) : ∃ e',
    ((on left e right).lastDup (sameKey key)).entry = some e' ∧ key e = key e' := by
  show ∃ e', (behind (right.dropWhile (sameKey key e))
    ((right.takeWhile (sameKey key e)).reverse ++ e :: left)).entry = some e' ∧ key e = key e'
  rw [entry_behind]
  cases eq : (right.takeWhile (sameKey key e)).reverse with
  | nil => exact ⟨e, rfl, rfl⟩
  | cons x more =>
    have mem : x ∈ right.takeWhile (sameKey key e) :=
      List.mem_reverse.mp (eq ▸ List.mem_cons_self)
    exact ⟨x, rfl, key_eq_of_mem_takeWhile mem⟩

/-- From the last entry of a key the entries before its key are passed next. -/
theorem prevNoDup_lastDup (left : List α) (e : α) (right : List α) : ∃ right',
    ((on left e right).lastDup (sameKey key)).prevNoDup (sameKey key) =
      behind right' (left.dropWhile (sameKey key e)) := by
  have moved : (on left e right).lastDup (sameKey key) =
      behind (right.dropWhile (sameKey key e))
        ((right.takeWhile (sameKey key e)).reverse ++ e :: left) := rfl
  rw [moved]
  cases eq : (right.takeWhile (sameKey key e)).reverse with
  | nil => exact ⟨_, rfl⟩
  | cons x more =>
    have within {y : α} (mem : y ∈ x :: more) : key e = key y :=
      key_eq_of_mem_takeWhile (List.mem_reverse.mp (eq ▸ mem))
    have sameX : sameKey key x = sameKey key e := by
      funext y
      rw [sameKey, sameKey, within List.mem_cons_self]
    refine ⟨_, congrArg (behind _) ?_⟩
    show (more ++ e :: left).dropWhile (sameKey key x) = _
    have skipped : ∀ y ∈ more ++ [e], sameKey key x y = true := by
      intro y mem
      rw [sameX]
      apply decide_eq_true
      rcases List.mem_append.mp mem with mem | mem
      · exact within (List.mem_cons_of_mem x mem)
      · rw [List.mem_singleton.mp mem]
    rw [List.append_cons, List.dropWhile_append_of_pos skipped, sameX]

end

end Position

/-- A condition that holds up to some element holds of the elements that it takes. -/
theorem takeWhile_eq_filter {α : Type*} {p : α → Bool} {entries : List α}
    (closed : entries.Pairwise fun a b => p b = true → p a = true) :
    entries.takeWhile p = entries.filter p := by
  induction entries with
  | nil => rfl
  | cons e entries ih =>
    obtain ⟨first, rest⟩ := List.pairwise_cons.mp closed
    cases holds : p e with
    | true => rw [List.takeWhile_cons_of_pos holds, List.filter_cons_of_pos holds, ih rest]
    | false =>
      have none : ∀ x ∈ e :: entries, ¬ p x = true := by
        intro x mem
        rcases List.mem_cons.mp mem with rfl | mem
        · exact Bool.eq_false_iff.mp holds
        · intro here
          exact Bool.eq_false_iff.mp holds (first x mem here)
      rw [List.filter_eq_nil_iff.mpr none,
        List.takeWhile_cons_of_neg (none e List.mem_cons_self)]

theorem dropWhile_eq_filter {α : Type*} {p : α → Bool} {entries : List α}
    (closed : entries.Pairwise fun a b => p b = true → p a = true) :
    entries.dropWhile p = entries.filter fun e => !p e := by
  induction entries with
  | nil => rfl
  | cons e entries ih =>
    obtain ⟨first, rest⟩ := List.pairwise_cons.mp closed
    cases holds : p e with
    | true =>
      rw [List.dropWhile_cons_of_pos holds, List.filter_cons_of_neg (by simp [holds]), ih rest]
    | false =>
      have all : ∀ x ∈ e :: entries, (!p x) = true := by
        intro x mem
        rw [Bool.not_eq_true', Bool.eq_false_iff]
        rcases List.mem_cons.mp mem with rfl | mem
        · exact Bool.eq_false_iff.mp holds
        · intro here
          exact Bool.eq_false_iff.mp holds (first x mem here)
      rw [List.filter_eq_self.mpr all,
        List.dropWhile_cons_of_neg (Bool.eq_false_iff.mp holds)]

/-- A choice of entries keeps one entry per key under a condition on the keys. -/
theorem OnePerKey.filter {α κ : Type*} {key : α → κ} {entries chosen : List α}
    (one : OnePerKey key entries chosen) {p : α → Bool} (byKey : ∀ a b, key a = key b → p a = p b) :
    OnePerKey key (entries.filter p) (chosen.filter p) where
  sublist := one.sublist.filter p
  apart := one.apart.filter p
  all := by
    intro e mem
    obtain ⟨there, holds⟩ := List.mem_filter.mp mem
    obtain ⟨c, memC, same⟩ := one.all e there
    exact ⟨c, List.mem_filter.mpr ⟨memC, (byKey c e same).trans holds⟩, same⟩

end SortedCursor
