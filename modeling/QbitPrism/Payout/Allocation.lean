import Mathlib
import QbitPrism.Lib.LargestRemainder
import QbitPrism.Payout.Types

/-!
# Splitting an amount over weighted entitlements

`allocate_weighted_amounts`: floor shares of the total, then one more sat each in
the order of the largest remainders.
-/
namespace QbitPrism
open MachineInt Checked SortBy LargestRemainder List

def WeightedEntitlement.cmp (a b : WeightedEntitlement) : Ordering :=
  a.toPayoutIdentity.canonicalCmp b.toPayoutIdentity

instance : Std.TransCmp WeightedEntitlement.cmp :=
  transCmp_comap PayoutIdentity.canonicalCmp WeightedEntitlement.toPayoutIdentity

def remainderCmp : Provisional 64 WeightedEntitlement → Provisional 64 WeightedEntitlement → Ordering :=
  compareLex (fun a b => compare b.remainder a.remainder) (fun a b => a.entry.cmp b.entry)

instance : Std.TransCmp remainderCmp := by
  unfold remainderCmp
  have := transCmp_comap (fun a b : ℕ => compare b a)
    (Provisional.remainder : Provisional 64 WeightedEntitlement → ℕ)
  have := transCmp_comap WeightedEntitlement.cmp
    (Provisional.entry : Provisional 64 WeightedEntitlement → WeightedEntitlement)
  infer_instance

/-- One entitlement's floor share and the remainder of its quota. -/
def provisionalShare (totalSats : U64) (totalWeight : U128) (entitlement : WeightedEntitlement) :
    Except PrismError (Provisional 64 WeightedEntitlement) := do
  let product ← okOr ((U64.toU128 totalSats).checkedMul entitlement.weight) .payoutPolicyOverflow
  let amount ← okOr (Unsigned.ofNat? (product.val / totalWeight.val)) .payoutPolicyOverflow
  pure ⟨entitlement, amount, product.val % totalWeight.val⟩

def allocateWeightedAmounts (totalSats : U64) (entitlements : List WeightedEntitlement) :
    Except PrismError (List (WeightedEntitlement × U64)) := do
  let ordered := sortBy WeightedEntitlement.cmp entitlements
  let totalWeight ← okOr (Unsigned.checkedSum (ordered.map (·.weight))) .payoutPolicyOverflow
  require (totalWeight ≠ 0) .payoutPolicyOverflow
  let provisional ← ordered.mapM (provisionalShare totalSats totalWeight)
  let allocated ← okOr (Unsigned.checkedSum (provisional.map (·.amount))) .payoutPolicyOverflow
  let remainderSats ← okOr (totalSats.checkedSub allocated) .payoutPolicyOverflow
  let bumped ← okOr (bumpAll provisional
    ((remainderOrder (Le remainderCmp) provisional).take remainderSats.val)) .payoutPolicyOverflow
  pure (bumped.map fun p => (p.entry, p.amount))

theorem le_remainderCmp {a b : Provisional 64 WeightedEntitlement} (h : Le remainderCmp a b) :
    b.remainder ≤ a.remainder := by
  simp only [Le, remainderCmp, compareLex] at h
  by_contra hlt
  rw [(Nat.compare_eq_gt (a := b.remainder) (b := a.remainder)).mpr (by omega)] at h
  simp at h

structure Allocated (total : ℕ) (entitlements : List WeightedEntitlement)
    (amounts : List (WeightedEntitlement × U64)) : Prop where
  entries : amounts.map Prod.fst = sortBy WeightedEntitlement.cmp entitlements
  positive : 0 < (entitlements.map fun e => e.weight.val).sum
  total_eq : (amounts.map fun x => x.2.val).sum = total
  quota : ∀ x ∈ amounts,
    IsQuota total (entitlements.map fun e => e.weight.val).sum x.1.weight.val x.2.val

variable {totalSats : U64} {totalWeight : U128}

theorem provisionalShare_eq_ok {e : WeightedEntitlement} {p : Provisional 64 WeightedEntitlement} :
    provisionalShare totalSats totalWeight e = .ok p ↔
      totalSats.val * e.weight.val < 2 ^ 128 ∧ p.entry = e ∧
        p.amount.val = totalSats.val * e.weight.val / totalWeight.val ∧
        p.remainder = totalSats.val * e.weight.val % totalWeight.val := by
  simp only [provisionalShare, bind_eq_ok, okOr_eq_ok, pure_eq_ok, Unsigned.checkedMul_eq_some,
    Unsigned.ofNat?_eq_some, U64.toU128_val]
  constructor
  · rintro ⟨product, hproduct, amount, hamount, rfl⟩
    exact ⟨hproduct ▸ product.isLt, rfl, hproduct ▸ hamount, hproduct ▸ rfl⟩
  · rintro ⟨hfit, hentry, hamount, hrem⟩
    refine ⟨⟨_, hfit⟩, rfl, p.amount, hamount, ?_⟩
    cases p
    simp_all

variable {es : List WeightedEntitlement}

theorem provisional_isSplit {ps : List (Provisional 64 WeightedEntitlement)}
    (hW : totalWeight.val = (es.map fun e => e.weight.val).sum) (hpos : totalWeight ≠ 0)
    (h : es.mapM (provisionalShare totalSats totalWeight) = .ok ps) :
    ps.map (·.entry) = es ∧ IsSplit totalSats.val (fun e => e.weight.val) ps := by
  have hentries : ps.map (·.entry) = es := by
    rw [← map_id es]
    exact map_eq_of_mapM_ok id (·.entry) h fun e p hp => (provisionalShare_eq_ok.mp hp).2.1
  refine ⟨hentries, IsSplit.of_mapM hW ?_ h ?_⟩
  · exact Nat.pos_of_ne_zero fun h0 => hpos (Unsigned.ext (h0.trans Unsigned.val_zero.symm))
  · intro e p hp
    obtain ⟨-, rfl, hamount, hrem⟩ := provisionalShare_eq_ok.mp hp
    exact ⟨rfl, hamount, hrem⟩

variable {out : List (WeightedEntitlement × U64)}

section
variable (h : allocateWeightedAmounts totalSats es = .ok out)
include h

theorem allocateWeightedAmounts_bumped :
    ∃ ps bumped : List (Provisional 64 WeightedEntitlement),
      ps.map (·.entry) = sortBy WeightedEntitlement.cmp es ∧
      IsSplit totalSats.val (fun e => e.weight.val) ps ∧
      bumpAll ps ((remainderOrder (Le remainderCmp) ps).take (totalSats.val - held ps)) = some bumped ∧
      out = bumped.map fun p => (p.entry, p.amount) := by
  simp only [allocateWeightedAmounts, bind_eq_ok, okOr_eq_ok, require_eq_ok, pure_eq_ok,
    Unsigned.checkedSum_eq_some, Unsigned.checkedSub_eq_some, map_map, Function.comp_def] at h
  obtain ⟨W, hW, -, hpos, ps, hps, allocated, halloc, rest, hrest, bumped, hbumped, rfl⟩ := h
  obtain ⟨hentries, hsplit⟩ := provisional_isSplit hW hpos hps
  have hrest' : rest.val = totalSats.val - held ps := by
    rw [held, ← halloc]
    omega
  exact ⟨ps, bumped, hentries, hsplit, hrest' ▸ hbumped, rfl⟩

theorem allocateWeightedAmounts_eq_ok :
    Allocated totalSats.val es out := by
  obtain ⟨ps, bumped, hentries, hsplit, hbumped, rfl⟩ := allocateWeightedAmounts_bumped h
  have hperm : (ps.map fun p => p.entry.weight.val).sum = (es.map fun e => e.weight.val).sum := by
    rw [← sum_map_sortBy WeightedEntitlement.cmp, ← hentries, map_map]
    rfl
  obtain ⟨htotal, hquota⟩ := hsplit.finish (Le remainderCmp) (fun _ _ => le_remainderCmp) hbumped
  refine ⟨?_, ?_, ?_, ?_⟩
  · rw [map_map, ← hentries]
    exact bumpAll_entries (remainderOrder_nodup _ _ _) hbumped
  · exact hperm ▸ hsplit.positive
  · rw [map_map]
    exact htotal
  · intro x hx
    obtain ⟨p, hp, rfl⟩ := mem_map.mp hx
    exact hperm ▸ hquota p hp

theorem allocateWeightedAmounts_mono
    {x y : WeightedEntitlement × U64} (hx : x ∈ out) (hy : y ∈ out)
    (hlt : y.1.weight.val < x.1.weight.val) : y.2.val ≤ x.2.val := by
  obtain ⟨ps, bumped, -, hsplit, hbumped, rfl⟩ := allocateWeightedAmounts_bumped h
  obtain ⟨p, hp, rfl⟩ := mem_map.mp hx
  obtain ⟨q, hq, rfl⟩ := mem_map.mp hy
  exact hsplit.finish_mono (Le remainderCmp) (fun _ _ => le_remainderCmp) hbumped hp hq hlt

end

theorem allocateWeightedAmounts_perm {other : List WeightedEntitlement}
    (hdistinct : (es.map (·.toPayoutIdentity)).Nodup) (hperm : es.Perm other) :
    allocateWeightedAmounts totalSats es = allocateWeightedAmounts totalSats other := by
  have hsorted : sortBy WeightedEntitlement.cmp es = sortBy WeightedEntitlement.cmp other := by
    refine sortBy_congr WeightedEntitlement.cmp hperm ?_
    intro a ha b hb hab
    exact inj_on_of_nodup_map hdistinct ha hb (Std.LawfulEqCmp.eq_of_compare hab)
  rw [allocateWeightedAmounts, allocateWeightedAmounts, hsorted]

/-- The split is exact and fair: every amount is the quota rounded, upwards only where it is not
whole, larger weights never receive less, and nothing depends on the order of the input. -/
theorem allocateWeightedAmounts_fair {totalSats : U64} {entitlements : List WeightedEntitlement}
    {amounts : List (WeightedEntitlement × U64)} (h : allocateWeightedAmounts totalSats entitlements = .ok amounts) :
    (amounts.map Prod.fst).Perm entitlements ∧
    (amounts.map fun x => x.2.val).sum = totalSats.val ∧
    (∀ x ∈ amounts, IsQuota totalSats.val (entitlements.map fun e => e.weight.val).sum x.1.weight.val x.2.val) ∧
    (∀ x ∈ amounts, ∀ y ∈ amounts, y.1.weight.val < x.1.weight.val → y.2.val ≤ x.2.val) ∧
    (totalSats.val ≤ (entitlements.map fun e => e.weight.val).sum →
      ∀ x ∈ amounts, x.2.val ≤ x.1.weight.val) ∧
    ((entitlements.map (·.toPayoutIdentity)).Nodup → ∀ other : List WeightedEntitlement,
      other.Perm entitlements → allocateWeightedAmounts totalSats other = .ok amounts) := by
  have halloc := allocateWeightedAmounts_eq_ok h
  refine ⟨?_, halloc.total_eq, halloc.quota, ?_, ?_, ?_⟩
  · rw [halloc.entries]
    exact sortBy_perm _ entitlements
  · intro x hx y hy hlt
    exact allocateWeightedAmounts_mono h hx hy hlt
  · intro hle x hx
    exact (halloc.quota x hx).le_weight hle
  · intro hdistinct other hperm
    rw [← allocateWeightedAmounts_perm hdistinct hperm.symm, h]

theorem allocateWeightedAmounts_fair_three :
    ∃ amounts, allocateWeightedAmounts 10 [⟨⟨"c", "c", "03"⟩, 1⟩, ⟨⟨"a", "a", "01"⟩, 1⟩, ⟨⟨"b", "b", "02"⟩, 1⟩] =
        .ok amounts ∧ (amounts.map fun x => x.2.val).sum = 10 := by
  have hok : (allocateWeightedAmounts 10 [⟨⟨"c", "c", "03"⟩, 1⟩, ⟨⟨"a", "a", "01"⟩, 1⟩,
      ⟨⟨"b", "b", "02"⟩, 1⟩]).isOk = true := by
    decide +kernel
  obtain ⟨amounts, hamounts⟩ := exists_of_isOk hok
  exact ⟨amounts, hamounts, (allocateWeightedAmounts_fair hamounts).2.1⟩

theorem allocateWeightedAmounts_of_bumped {ps bumped : List (Provisional 64 WeightedEntitlement)}
    (hW : totalWeight.val = ((sortBy WeightedEntitlement.cmp es).map fun e => e.weight.val).sum)
    (hne : totalWeight ≠ 0)
    (hps : (sortBy WeightedEntitlement.cmp es).mapM (provisionalShare totalSats totalWeight) = .ok ps)
    (hbumped : bumpAll ps ((remainderOrder (Le remainderCmp) ps).take (totalSats.val - held ps)) = some bumped) :
    allocateWeightedAmounts totalSats es = .ok (bumped.map fun p => (p.entry, p.amount)) := by
  have hheld := (provisional_isSplit hW hne hps).2.held_le
  have hweights : Unsigned.checkedSum ((sortBy WeightedEntitlement.cmp es).map (·.weight)) =
      some totalWeight :=
    Unsigned.checkedSum_eq_some.mpr (by rw [map_map]; exact hW)
  obtain ⟨allocated, halloc⟩ := (Unsigned.checkedSum_isSome (ps.map (·.amount))).mpr
    (by rw [map_map]; exact lt_of_le_of_lt hheld totalSats.isLt)
  have hallocVal : allocated.val = held ps := by
    rw [Unsigned.checkedSum_eq_some.mp halloc, map_map]
    rfl
  have hsub : totalSats.checkedSub allocated = some ⟨totalSats.val - held ps,
      lt_of_le_of_lt (Nat.sub_le _ _) totalSats.isLt⟩ :=
    Unsigned.checkedSub_eq_some.mpr (by simp only; omega)
  simp only [allocateWeightedAmounts, hweights, okOr_some, ok_bind, require_of hne, hps, halloc, hsub, hbumped]
  rfl

theorem allocateWeightedAmounts_isOk (totalSats : U64) (hpos : 0 < (es.map fun e => e.weight.val).sum)
    (hsum : (es.map fun e => e.weight.val).sum < 2 ^ 128) (hfit : ∀ e ∈ es, totalSats.val * e.weight.val < 2 ^ 128) :
    ∃ out, allocateWeightedAmounts totalSats es = .ok out := by
  have hsorted := sum_map_sortBy WeightedEntitlement.cmp (fun e => e.weight.val) es
  obtain ⟨W, hW⟩ := (Unsigned.checkedSum_isSome
    ((sortBy WeightedEntitlement.cmp es).map (·.weight))).mpr
      (by rw [map_map]; exact hsorted ▸ hsum)
  have hWval : W.val = ((sortBy WeightedEntitlement.cmp es).map fun e => e.weight.val).sum := by
    rw [Unsigned.checkedSum_eq_some.mp hW, map_map]
    rfl
  have hWpos : W ≠ 0 := by
    rintro rfl
    rw [Unsigned.val_zero] at hWval
    omega
  obtain ⟨ps, hps⟩ := mapM_isOk (provisionalShare totalSats W) fun e (he : e ∈ sortBy WeightedEntitlement.cmp es) => by
      have hfit := hfit e ((mem_sortBy _).mp he)
      have hle : e.weight.val ≤ W.val := by
        rw [hWval]
        exact single_le_sum (fun _ _ => Nat.zero_le _) _ (mem_map_of_mem he)
      have hquota := quota_le_total totalSats.val hle
      exact ⟨⟨e, ⟨_, lt_of_le_of_lt hquota totalSats.isLt⟩, _⟩,
        provisionalShare_eq_ok.mpr ⟨hfit, rfl, rfl, rfl⟩⟩
  obtain ⟨-, hsplit⟩ := provisional_isSplit hWval hWpos hps
  obtain ⟨bumped, hbumped⟩ := hsplit.finish_isSome (Le remainderCmp) (fun _ _ => le_remainderCmp)
    totalSats.isLt
  exact ⟨_, allocateWeightedAmounts_of_bumped hWval hWpos hps hbumped⟩

end QbitPrism
