import Mathlib

/-!
# Reading an ordered list in pages

A reader keeps the key of the last element it has seen and asks for the elements beyond it, a page
at a time. The keys may run either way: `lt` is the order the list is read in.
-/
namespace Keyset
open List
universe u v
variable {α : Type u} {κ : Type v} (lt : κ → κ → Prop) [DecidableRel lt] (key : α → κ)

def beyond (cursor : κ) (xs : List α) : List α := xs.filter fun x => lt cursor (key x)

def Ordered (xs : List α) : Prop := xs.Pairwise fun x y => lt (key x) (key y)

variable {lt key}

theorem Ordered.beyond {xs : List α} (h : Ordered lt key xs) (cursor : κ) :
    Ordered lt key (beyond lt key cursor xs) :=
  List.Pairwise.filter _ h

theorem Ordered.beyond_split {front rest : List α} {x : α} (h : Ordered lt key (front ++ x :: rest))
    (hasymm : ∀ a b, lt a b → ¬lt b a) :
    Keyset.beyond lt key (key x) (front ++ x :: rest) = rest := by
  obtain ⟨-, hrest, hfront⟩ := pairwise_append.mp h
  have hbefore : front.filter (fun y => lt (key x) (key y)) = [] := by
    rw [filter_eq_nil_iff]
    intro y hy
    simpa using hasymm _ _ (hfront y hy x mem_cons_self)
  have hself : ¬lt (key x) (key x) := fun hlt => hasymm _ _ hlt hlt
  rw [Keyset.beyond, filter_append, hbefore, nil_append, filter_cons_of_neg (by simpa using hself), filter_eq_self]
  intro y hy
  simpa using rel_of_pairwise_cons hrest hy

theorem Ordered.beyond_page {xs page : List α} (h : Ordered lt key xs)
    (htrans : ∀ a b c, lt a b → lt b c → lt a c) (hasymm : ∀ a b, lt a b → ¬lt b a) {cursor : κ}
    {size : ℕ} {x : α} (hpage : (Keyset.beyond lt key cursor xs).take size = page ++ [x]) :
    Keyset.beyond lt key (key x) xs = (Keyset.beyond lt key cursor xs).drop size := by
  have hsplit : Keyset.beyond lt key cursor xs =
      page ++ x :: (Keyset.beyond lt key cursor xs).drop size := by
    conv_lhs => rw [← take_append_drop size (Keyset.beyond lt key cursor xs), hpage]
    simp
  have hx : lt cursor (key x) := by
    have hmem : x ∈ Keyset.beyond lt key cursor xs := by
      rw [hsplit]
      simp
    simpa using (mem_filter.mp hmem).2
  have hagain : Keyset.beyond lt key (key x) xs =
      Keyset.beyond lt key (key x) (Keyset.beyond lt key cursor xs) := by
    rw [Keyset.beyond, Keyset.beyond, Keyset.beyond, filter_filter]
    refine filter_congr fun y _ => ?_
    by_cases hy : lt (key x) (key y)
    · simp [hy, htrans _ _ _ hx hy]
    · simp [hy]
  have hordered := h.beyond cursor
  rw [hagain]
  conv_lhs => rw [hsplit]
  rw [hsplit] at hordered
  exact hordered.beyond_split hasymm

/-- A page is empty with nothing beyond the cursor, or its last element is the next cursor. -/
theorem Ordered.page_cases {xs page : List α} (h : Ordered lt key xs)
    (htrans : ∀ a b c, lt a b → lt b c → lt a c) (hasymm : ∀ a b, lt a b → ¬lt b a) {cursor : κ}
    {size : ℕ} (hsize : size ≠ 0) (hpage : page = (Keyset.beyond lt key cursor xs).take size) :
    (page = [] ∧ Keyset.beyond lt key cursor xs = []) ∨ ∃ front x, page = front ++ [x] ∧
      Keyset.beyond lt key (key x) xs = (Keyset.beyond lt key cursor xs).drop size := by
  rcases eq_nil_or_concat' page with hnil | ⟨front, x, hlast⟩
  · exact .inl ⟨hnil, (take_eq_nil_iff.mp (hpage.symm.trans hnil)).resolve_left hsize⟩
  · exact .inr ⟨front, x, hlast, h.beyond_page htrans hasymm (hpage.symm.trans hlast)⟩

theorem filter_append_filter {r : α → α → Prop} {p : α → Bool} {xs : List α} (h : xs.Pairwise r)
    (hdown : ∀ x y, r x y → p y → p x) : xs.filter p ++ xs.filter (fun x => !p x) = xs := by
  induction xs with
  | nil => rfl
  | cons x xs ih =>
    obtain ⟨hx, hxs⟩ := pairwise_cons.mp h
    by_cases hp : p x
    · rw [filter_cons_of_pos hp, filter_cons_of_neg (by simp [hp]), cons_append, ih hxs]
    · have hnone : xs.filter p = [] :=
        filter_eq_nil_iff.mpr fun y hy hpy => hp (hdown x y (hx y hy) hpy)
      have hrest := ih hxs
      rw [hnone, nil_append] at hrest
      rw [filter_cons_of_neg hp, hnone, filter_cons_of_pos (by simp [hp]), hrest, nil_append]

end Keyset
