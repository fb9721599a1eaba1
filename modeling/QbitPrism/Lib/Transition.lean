import Mathlib.Logic.Relation
import Mathlib.Order.WellFounded

/-!
# Transition systems

A step relation on states: what every run keeps, and what every run comes to.
-/
namespace Transition

variable {σ : Type*} {step : σ → σ → Prop} {done keeps : σ → Prop} {s t : σ}

theorem run_keeps (hstep : ∀ s t, keeps s → step s t → keeps t) (hs : keeps s)
    (hrun : Relation.ReflTransGen step s t) : keeps t := by
  induction hrun with
  | refl => exact hs
  | tail _ hlast ih => exact hstep _ _ ih hlast

/-- Every run from `s` ends, whichever steps it takes, and ends in a `done` state. -/
inductive Settles (step : σ → σ → Prop) (done : σ → Prop) : σ → Prop where
  | intro (s : σ) (hends : done s ∨ ∃ t, step s t)
      (hnext : ∀ t, step s t → Settles step done t) : Settles step done s

theorem settles_of_measure (measure : σ → ℕ) (hstep : ∀ s t, keeps s → step s t → keeps t)
    (hlower : ∀ s t, keeps s → step s t → measure t < measure s)
    (hends : ∀ s, keeps s → done s ∨ ∃ t, step s t) (hs : keeps s) : Settles step done s := by
  induction h : measure s using Nat.strong_induction_on generalizing s with
  | _ n ih =>
    subst h
    refine .intro s (hends s hs) fun t ht => ?_
    exact ih (measure t) (hlower s t hs ht) (hstep s t hs ht) rfl

theorem Settles.exists_done (h : Settles step done s) :
    ∃ t, Relation.ReflTransGen step s t ∧ done t := by
  induction h with
  | intro s hends _ ih =>
    rcases hends with hdone | ⟨t, ht⟩
    · exact ⟨s, .refl, hdone⟩
    · obtain ⟨u, hrun, hdone⟩ := ih t ht
      exact ⟨u, .head ht hrun, hdone⟩

end Transition
