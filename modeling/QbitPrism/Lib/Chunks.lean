import Mathlib

/-!
# Chunks of a list

`List.toChunks` cuts a list into pieces and loses nothing: every piece is full but the last, which is
not empty.
-/
namespace Chunks

variable {α : Type*} {n : ℕ}

theorem go_flatten (xs : List α) (open₁ : Array α) (done : Array (List α)) :
    (List.toChunks.go n xs open₁ done).flatten = done.toList.flatten ++ (open₁.toList ++ xs) := by
  induction xs generalizing open₁ done with
  | nil => simp [List.toChunks.go]
  | cons x xs ih =>
    rw [List.toChunks.go]
    split
    · rw [ih]
      simp
    · rw [ih]
      simp

theorem toChunks_flatten (xs : List α) : (xs.toChunks n).flatten = xs := by
  cases xs with
  | nil => rfl
  | cons x xs =>
    cases n with
    | zero => simp [List.toChunks]
    | succ n =>
      rw [List.toChunks, go_flatten]
      · simp
      · simp

/-- Pieces of `n`, and a last one that is neither empty nor longer. -/
def Cut (n : ℕ) (parts : List (List α)) : Prop :=
  ∃ full last, parts = full ++ [last] ∧ (∀ part ∈ full, part.length = n) ∧ 0 < last.length ∧ last.length ≤ n

theorem go_cut (hn : 0 < n) (xs : List α) (open₁ : Array α) (done : Array (List α))
    (hopen : 0 < open₁.size) (hfit : open₁.size ≤ n) (hdone : ∀ part ∈ done.toList, part.length = n) :
    Cut n (List.toChunks.go n xs open₁ done) := by
  induction xs generalizing open₁ done with
  | nil => exact ⟨done.toList, open₁.toList, by simp [List.toChunks.go], hdone, by simpa, by simpa⟩
  | cons x xs ih =>
    rw [List.toChunks.go]
    split
    case isTrue hfull =>
        refine ih _ _ (by simp) (by simp; omega) ?_
        intro part hpart
        rw [Array.toList_push, List.mem_append, List.mem_singleton] at hpart
        rcases hpart with hpart | rfl
        · exact hdone part hpart
        · simpa using hfull
    case isFalse hroom =>
        have hne : open₁.size ≠ n := by simpa using hroom
        exact ih _ _ (by simp) (by rw [Array.size_push]; omega) hdone

theorem toChunks_cut (hn : 0 < n) {xs : List α} (hxs : xs ≠ []) : Cut n (xs.toChunks n) := by
  cases xs with
  | nil => exact absurd rfl hxs
  | cons x xs =>
    cases n with
    | zero => omega
    | succ n =>
      rw [List.toChunks]
      · exact go_cut hn xs _ _ (by simp) (by simp) (by simp)
      · simp

theorem toChunks_length (hn : 0 < n) (xs : List α) : (xs.toChunks n).length = (xs.length + (n - 1)) / n := by
  rcases eq_or_ne xs [] with rfl | hxs
  · exact (Nat.div_eq_of_lt (by simp; omega)).symm
  · obtain ⟨full, last, heq, hfull, hpos, hle⟩ := toChunks_cut hn hxs
    have hlength : xs.length = n * full.length + last.length := by
      rw [← toChunks_flatten (n := n) xs, heq, List.flatten_append, List.length_append, List.length_flatten,
        List.map_congr_left hfull]
      simp [Nat.mul_comm]
    have hsplit : xs.length + (n - 1) = n * (full.length + 1) + (last.length - 1) := by
      rw [Nat.mul_succ]
      omega
    rw [hsplit, Nat.mul_add_div hn, Nat.div_eq_of_lt (by omega), heq]
    simp

end Chunks
