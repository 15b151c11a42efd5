import Mathlib.Data.List.Basic

/-!
# Ownership of handles

A log of events that pass handles on, some of which they take over. It is in order if no handle is
passed after an event that took it over, so that each is taken over at most once.
-/

namespace Ownership

variable {ε η : Type*} {passed consumed : ε → List η}

/-- No handle is passed once it was consumed. -/
def Owned (passed consumed : ε → List η) (log : List ε) : Prop :=
  log.Pairwise fun e e' => ∀ p ∈ consumed e, p ∉ passed e'

/-- The handle was not consumed. -/
def Live (consumed : ε → List η) (log : List ε) (p : η) : Prop := ∀ e ∈ log, p ∉ consumed e

@[simp] theorem owned_nil : Owned passed consumed ([] : List ε) := List.Pairwise.nil

@[simp] theorem live_nil {p : η} : Live consumed ([] : List ε) p := by
  simp [Live]

@[simp] theorem live_append {log : List ε} {e : ε} {p : η} :
    Live consumed (log ++ [e]) p ↔ Live consumed log p ∧ p ∉ consumed e := by
  simp [Live, or_imp, forall_and]

/-- A further event has to pass live handles only. -/
@[simp] theorem owned_append {log : List ε} {e : ε} :
    Owned passed consumed (log ++ [e]) ↔
      Owned passed consumed log ∧ ∀ p ∈ passed e, Live consumed log p := by
  unfold Owned Live
  rw [List.pairwise_append]
  constructor
  · intro h
    obtain ⟨log_owned, -, last⟩ := h
    exact ⟨log_owned, fun p mem e' listed taken => last e' listed e (by simp) p taken mem⟩
  · intro h
    obtain ⟨log_owned, last⟩ := h
    refine ⟨log_owned, List.pairwise_singleton _ _, fun e' listed e'' same p taken mem => ?_⟩
    obtain rfl := List.mem_singleton.mp same
    exact last p mem e' listed taken

theorem Owned.of_prefix {log log' : List ε} (owned : Owned passed consumed log')
    (earlier : log <+: log') : Owned passed consumed log :=
  owned.sublist earlier.sublist

end Ownership
