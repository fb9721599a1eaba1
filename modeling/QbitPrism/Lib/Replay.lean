import Mathlib

/-!
# Replaying a history

A machine that takes one input at a time, and the state it is in after a list of them.
-/
namespace Replay
open List

variable {σ ε α : Type*} {apply : σ → ε → σ} {s : σ}

def run (apply : σ → ε → σ) (s : σ) (inputs : List ε) : σ := inputs.foldl apply s

theorem run_append {earlier later : List ε} :
    run apply s (earlier ++ later) = run apply (run apply s earlier) later :=
  foldl_append

theorem run_keeps {keeps : σ → Prop} (hstep : ∀ s input, keeps s → keeps (apply s input)) (hs : keeps s)
    (inputs : List ε) : keeps (run apply s inputs) := by
  induction inputs generalizing s with
  | nil => exact hs
  | cons input inputs ih => exact ih (hstep s input hs)

theorem run_mono [Preorder α] {measure : σ → α} (hstep : ∀ s input, measure s ≤ measure (apply s input))
    (inputs : List ε) : measure s ≤ measure (run apply s inputs) := by
  refine @run_keeps _ _ _ _ (fun t => measure s ≤ measure t) ?_ le_rfl inputs
  exact fun t input ht => ht.trans (hstep t input)

section Positions
variable {inputs : List ε} {input : ε} {p : σ → ε → Prop}

/-- No input of the history has the property, at the state it is taken in. -/
def Never (apply : σ → ε → σ) (p : σ → ε → Prop) (s : σ) (inputs : List ε) : Prop :=
  ∀ earlier input later, inputs = earlier ++ input :: later → ¬p (run apply s earlier) input

theorem Never.nil : Never apply p s [] := by
  intro earlier input later h
  cases earlier <;> cases h

theorem Never.concat (h : Never apply p s inputs) (hinput : ¬p (run apply s inputs) input) :
    Never apply p s (inputs ++ [input]) := by
  intro earlier other later heq
  rcases eq_nil_or_concat later with rfl | ⟨front, last, rfl⟩
  · obtain ⟨rfl, hlast⟩ := append_inj' heq rfl
    obtain rfl := singleton_inj.mp hlast
    exact hinput
  · rw [concat_eq_append, ← cons_append, ← append_assoc] at heq
    exact h earlier other front (append_inj' heq rfl).1

/-- `input` is the last of the history with the property. -/
structure LastAt (apply : σ → ε → σ) (p : σ → ε → Prop) (s : σ) (inputs earlier : List ε) (input : ε)
    (later : List ε) : Prop where
  split : inputs = earlier ++ input :: later
  holds : p (run apply s earlier) input
  never : Never apply p (run apply s (earlier ++ [input])) later

/-- `input` is the first of the history with the property. -/
structure FirstAt (apply : σ → ε → σ) (p : σ → ε → Prop) (s : σ) (inputs earlier : List ε) (input : ε)
    (later : List ε) : Prop where
  split : inputs = earlier ++ input :: later
  holds : p (run apply s earlier) input
  never : Never apply p s earlier

theorem LastAt.concat {earlier later : List ε} {last : ε} (h : LastAt apply p s inputs earlier last later)
    (hinput : ¬p (run apply s inputs) input) :
    LastAt apply p s (inputs ++ [input]) earlier last (later ++ [input]) := by
  obtain ⟨rfl, hholds, hnever⟩ := h
  refine ⟨by simp, hholds, hnever.concat ?_⟩
  rwa [← run_append, append_assoc, singleton_append]

theorem LastAt.of_holds (h : p (run apply s inputs) input) :
    LastAt apply p s (inputs ++ [input]) inputs input [] :=
  ⟨rfl, h, .nil⟩

theorem FirstAt.concat {earlier later : List ε} {first : ε} (h : FirstAt apply p s inputs earlier first later) :
    FirstAt apply p s (inputs ++ [input]) earlier first (later ++ [input]) :=
  ⟨by rw [h.split]; simp, h.holds, h.never⟩

theorem FirstAt.of_never (hnever : Never apply p s inputs) (h : p (run apply s inputs) input) :
    FirstAt apply p s (inputs ++ [input]) inputs input [] :=
  ⟨rfl, h, hnever⟩

end Positions

end Replay
