import Mathlib

/-!
# Taking elements until a weight is reached

`take w target xs` keeps the elements of `xs` from the front until their weights add up to
`target`; the element that crosses the target is kept whole. Taking composes with appending,
so a window can be advanced from what was taken before instead of from everything.
-/
namespace Crossing
open List
universe u
variable {α : Type u} (w : α → ℕ)

def weight (xs : List α) : ℕ := (xs.map w).sum

def take : ℕ → List α → List α
  | _, [] => []
  | target, x :: xs => if target = 0 then [] else x :: take (target - w x) xs

variable {w}

@[simp] theorem weight_nil : weight w [] = 0 := rfl

@[simp] theorem weight_cons (x : α) (xs : List α) : weight w (x :: xs) = w x + weight w xs := by
  rw [weight, map_cons, sum_cons, weight]

@[simp] theorem weight_append (xs ys : List α) : weight w (xs ++ ys) = weight w xs + weight w ys := by
  rw [weight, map_append, sum_append, weight, weight]

theorem weight_reverse (xs : List α) : weight w xs.reverse = weight w xs := by
  rw [weight, map_reverse, sum_reverse, weight]

@[simp] theorem take_nil (target : ℕ) : take w target [] = [] := rfl

@[simp] theorem take_zero (xs : List α) : take w 0 xs = [] := by
  cases xs with
  | nil => rfl
  | cons x xs => exact if_pos rfl

variable {target : ℕ} {xs : List α}

theorem take_cons (h : target ≠ 0) (x : α) (xs : List α) :
    take w target (x :: xs) = x :: take w (target - w x) xs := if_neg h

theorem take_initial (target : ℕ) (xs : List α) : take w target xs <+: xs := by
  induction xs generalizing target with
  | nil => exact nil_prefix
  | cons x xs ih =>
    by_cases h : target = 0
    · rw [h, take_zero]
      exact nil_prefix
    · rw [take_cons h]
      exact cons_prefix_cons.mpr ⟨rfl, ih _⟩

theorem take_append (target : ℕ) (xs ys : List α) :
    take w target (xs ++ ys) = take w target xs ++ take w (target - weight w xs) ys := by
  induction xs generalizing target with
  | nil => simp
  | cons x xs ih =>
    by_cases h : target = 0
    · simp [h]
    · rw [cons_append, take_cons h, take_cons h, ih, weight_cons, cons_append, Nat.sub_sub]

theorem take_take (first second : ℕ) (xs : List α) :
    take w first (take w second xs) = take w (min first second) xs := by
  induction xs generalizing first second with
  | nil => rfl
  | cons x xs ih =>
    by_cases hfirst : first = 0
    · simp [hfirst]
    · by_cases hsecond : second = 0
      · simp [hsecond]
      · rw [take_cons hsecond, take_cons hfirst, take_cons (by omega), ih]
        congr 2
        omega

theorem take_append_take (target : ℕ) (xs ys : List α) :
    take w target (xs ++ take w target ys) = take w target (xs ++ ys) := by
  rw [take_append, take_append, take_take, min_eq_left (Nat.sub_le _ _)]

theorem take_eq_self (h : weight w xs < target) : take w target xs = xs := by
  induction xs generalizing target with
  | nil => rfl
  | cons x xs ih =>
    rw [weight_cons] at h
    rw [take_cons (by omega), ih (by omega)]

theorem take_of_crossing {before rest : List α} {x : α} (hbefore : weight w before < target)
    (hcross : rest = [] ∨ target ≤ weight w (before ++ [x])) :
    take w target (before ++ x :: rest) = before ++ [x] := by
  rw [take_append, take_eq_self hbefore, take_cons (by omega)]
  rcases hcross with rfl | hcross
  · rfl
  · simp only [weight_append, weight_cons, weight_nil] at hcross
    have hzero : target - weight w before - w x = 0 := by omega
    rw [hzero, take_zero]

theorem take_eq_self_or_le (target : ℕ) (xs : List α) :
    take w target xs = xs ∨ target ≤ weight w (take w target xs) := by
  induction xs generalizing target with
  | nil => exact .inl rfl
  | cons x xs ih =>
    by_cases h : target = 0
    · exact .inr (by omega)
    · rw [take_cons h, weight_cons]
      rcases ih (target - w x) with heq | hle
      · exact .inl (congrArg (x :: ·) heq)
      · exact .inr (by omega)

theorem weight_le_of_initial {ys : List α} (h : xs <+: ys) : weight w xs ≤ weight w ys := by
  obtain ⟨rest, rfl⟩ := h
  rw [weight_append]
  exact Nat.le_add_right _ _

theorem take_snoc_eq_self_iff {before : List α} {x : α} :
    take w target (before ++ [x]) = before ++ [x] ↔ weight w before < target := by
  constructor
  · intro h
    by_contra hle
    rw [take_append, Nat.sub_eq_zero_of_le (Nat.le_of_not_lt hle), take_zero, append_nil] at h
    have hlength := (take_initial (w := w) target before).length_le
    rw [h, length_append, length_singleton] at hlength
    omega
  · intro h
    exact take_of_crossing h (.inl rfl)

theorem take_append_eq_left_iff {ys : List α} :
    take w target (xs ++ ys) = xs ↔ take w target xs = xs ∧ (ys = [] ∨ target ≤ weight w xs) := by
  constructor
  · intro h
    rw [take_append] at h
    have hself : take w target xs = xs := by
      rcases take_eq_self_or_le (w := w) target xs with hself | hle
      · exact hself
      · have hweight := hle.trans (weight_le_of_initial (take_initial target xs))
        rwa [Nat.sub_eq_zero_of_le hweight, take_zero, append_nil] at h
    rw [hself, append_right_eq_self] at h
    refine ⟨hself, ?_⟩
    cases ys with
    | nil => exact .inl rfl
    | cons y ys =>
      by_contra hnot
      obtain ⟨-, hlt⟩ := not_or.mp hnot
      rw [take_cons (by omega)] at h
      cases h
  · rintro ⟨hself, rfl | hle⟩
    · rw [append_nil, hself]
    · rw [take_append, hself, Nat.sub_eq_zero_of_le hle, take_zero, append_nil]

theorem take_reverse_iff {older newer : List α} {x : α} :
    take w target (older ++ x :: newer).reverse = (x :: newer).reverse ↔
      weight w newer < target ∧ (older = [] ∨ target ≤ weight w (x :: newer)) := by
  rw [reverse_append, take_append_eq_left_iff, reverse_cons, take_snoc_eq_self_iff,
    weight_reverse, reverse_eq_nil_iff, ← reverse_cons, weight_reverse]

end Crossing
