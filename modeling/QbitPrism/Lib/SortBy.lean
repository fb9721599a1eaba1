import Mathlib

/-!
# Stable sorting by a comparison function

`sortBy cmp` orders a list by a three-way comparison and keeps equal elements in
their input order.
-/
namespace SortBy
open Std List

variable {α β : Type*} (cmp : α → α → Ordering)

def Le (a b : α) : Prop := (cmp a b).isLE = true

instance : DecidableRel (Le cmp) := fun a b => inferInstanceAs (Decidable ((cmp a b).isLE = true))

instance [OrientedCmp cmp] : Std.Total (Le cmp) where
  total a b := by
    unfold Le
    have hswap : cmp b a = (cmp a b).swap := OrientedCmp.eq_swap
    rw [hswap]
    cases cmp a b <;> simp

instance [TransCmp cmp] : IsTrans α (Le cmp) where
  trans _ _ _ hab hbc := TransCmp.isLE_trans hab hbc

theorem transCmp_comap (f : β → α) [TransCmp cmp] : TransCmp fun a b => cmp (f a) (f b) where
  eq_swap := OrientedCmp.eq_swap
  isLE_trans := TransCmp.isLE_trans

def sortBy (xs : List α) : List α := xs.insertionSort (Le cmp)

theorem sortBy_perm (xs : List α) : (sortBy cmp xs).Perm xs := perm_insertionSort _ xs

@[simp] theorem mem_sortBy {xs : List α} {a : α} : a ∈ sortBy cmp xs ↔ a ∈ xs :=
  (sortBy_perm cmp xs).mem_iff

theorem sortBy_eq_nil {xs : List α} : sortBy cmp xs = [] ↔ xs = [] := by
  rw [← length_eq_zero_iff, (sortBy_perm cmp xs).length_eq, length_eq_zero_iff]

theorem sortBy_pairwise [TransCmp cmp] (xs : List α) : (sortBy cmp xs).Pairwise (Le cmp) :=
  pairwise_insertionSort _ xs

theorem sortBy_of_pairwise {xs : List α} (h : xs.Pairwise (Le cmp)) : sortBy cmp xs = xs :=
  h.insertionSort_eq

theorem Le.antisymm [OrientedCmp cmp] {a b : α} (hab : Le cmp a b) (hba : Le cmp b a) : cmp a b = .eq := by
  unfold Le at hab hba
  rw [show cmp b a = (cmp a b).swap from OrientedCmp.eq_swap] at hba
  cases hcmp : cmp a b with
  | lt => simp [hcmp] at hba
  | eq => rfl
  | gt => simp [hcmp] at hab

theorem sortBy_congr [TransCmp cmp] {xs ys : List α} (h : xs.Perm ys)
    (hcmp : ∀ a ∈ xs, ∀ b ∈ xs, cmp a b = .eq → a = b) : sortBy cmp xs = sortBy cmp ys := by
  refine List.Perm.eq_of_pairwise ?_ (sortBy_pairwise cmp xs) (sortBy_pairwise cmp ys)
    ((sortBy_perm cmp xs).trans (h.trans (sortBy_perm cmp ys).symm))
  intro a b ha hb hab hba
  exact hcmp a ((mem_sortBy cmp).mp ha) b (h.mem_iff.mpr ((mem_sortBy cmp).mp hb)) (hab.antisymm cmp hba)

theorem sortBy_eq_iff_perm [TransCmp cmp] [LawfulEqCmp cmp] {xs ys : List α} :
    sortBy cmp xs = sortBy cmp ys ↔ xs.Perm ys := by
  constructor
  · intro h
    exact (sortBy_perm cmp xs).symm.trans (h ▸ sortBy_perm cmp ys)
  · intro h
    exact sortBy_congr cmp h fun a _ b _ => LawfulEqCmp.eq_of_compare

theorem filter_sortBy [TransCmp cmp] (a : α) (xs : List α) :
    (sortBy cmp xs).filter (fun b => cmp a b = .eq) = xs.filter (fun b => cmp a b = .eq) := by
  have hties : (xs.filter fun b => cmp a b = .eq).Pairwise (Le cmp) := by
    refine pairwise_of_forall_mem_list ?_
    intro b hb c hc
    have hab : cmp a b = .eq := of_decide_eq_true (mem_filter.mp hb).2
    have hac : cmp a c = .eq := of_decide_eq_true (mem_filter.mp hc).2
    have hba : cmp b a = .eq := OrientedCmp.eq_symm hab
    exact TransCmp.isLE_trans (by rw [hba]; rfl) (by rw [hac]; rfl : (cmp a c).isLE = true)
  have hsub := (sublist_insertionSort hties filter_sublist).filter fun b => cmp a b = .eq
  rw [filter_filter] at hsub
  simp only [Bool.and_self] at hsub
  refine (hsub.eq_of_length ?_).symm
  exact (((sortBy_perm cmp xs).filter _).length_eq).symm

theorem sum_map_sortBy [AddCommMonoid β] (f : α → β) (xs : List α) :
    ((sortBy cmp xs).map f).sum = (xs.map f).sum :=
  ((sortBy_perm cmp xs).map f).sum_eq

end SortBy
