import Mathlib
import QbitPrism.Payout.Conservation
import QbitPrism.Window.Greedy

/-!
# How a payout program is spelled

Rows of one program are merged whatever their case, and the merged row keeps a spelling some row
had. So what holds of every spelling a block is given holds of every spelling it pays.
-/
namespace QbitPrism
open MachineInt Checked MergeByKey SortBy

variable {e : WeightedEntitlement}

section
variable {P : String → Prop}

theorem entitlementMerger_spelled {s s' : WeightedEntitlement} (h : entitlementMerger.add s e = .ok s') :
    s'.p2mrProgramHex = s.p2mrProgramHex := by
  simp only [entitlementMerger, bind_eq_ok, pure_eq_ok] at h
  obtain ⟨weight, -, rfl⟩ := h
  exact PayoutIdentity.rename_p2mrProgramHex _ _

variable {b : CarryForwardBalance} {entitlements : List WeightedEntitlement} {priors : List CarryForwardBalance}
  {policy : PayoutPolicy} {fee : Option PoolFeeManifest}

theorem balanceMerger_spelled {overflow : PrismError} {s s' : CarryForwardBalance}
    (h : (balanceMerger overflow).add s b = .ok s') : s'.p2mrProgramHex = s.p2mrProgramHex := by
  simp only [balanceMerger, bind_eq_ok, pure_eq_ok] at h
  obtain ⟨balance, -, rfl⟩ := h
  exact PayoutIdentity.rename_p2mrProgramHex _ _

theorem aggregateEntitlements_spelled {merged : List WeightedEntitlement}
    (hrows : ∀ e ∈ entitlements, P e.p2mrProgramHex)
    (h : aggregateEntitlementsByPayoutProgram entitlements = .ok merged) (he : e ∈ merged) : P e.p2mrProgramHex := by
  simp only [aggregateEntitlementsByPayoutProgram, bind_eq_ok, pure_eq_ok] at h
  obtain ⟨m, hm, rfl⟩ := h
  obtain ⟨k, hk⟩ := mem_values.mp he
  refine Merger.merge_invariant (M := entitlementMerger) (fun _ s => P s.p2mrProgramHex) hrows ?_ hm hk
  intro r _ s s' hadd hs
  rw [entitlementMerger_spelled hadd]
  exact hs

theorem carryForward_spelled {balances : List CarryForwardBalance} {m : Std.TreeMap String CarryForwardBalance}
    (hrows : ∀ b ∈ balances, P b.p2mrProgramHex) (h : carryForwardByPayoutProgram balances = .ok m)
    (hb : b ∈ values m) : P b.p2mrProgramHex := by
  obtain ⟨k, hk⟩ := mem_values.mp hb
  refine Merger.merge_invariant (M := balanceMerger .payoutPolicyOverflow) (fun _ s => P s.p2mrProgramHex)
    hrows ?_ h hk
  intro r _ s s' hadd hs
  rw [balanceMerger_spelled hadd]
  exact hs

theorem openAccounts_spelled {reward : U64} {opened : OpenedAccounts} (hrows : ∀ e ∈ entitlements, P e.p2mrProgramHex)
    (hpriors : ∀ b ∈ priors, P b.p2mrProgramHex) (h : openAccounts entitlements priors reward = .ok opened)
    {a : PayoutPolicyAccount} (ha : a ∈ opened.accounts) : P a.p2mrProgramHex := by
  simp only [openAccounts, bind_eq_ok, pure_eq_ok] at h
  obtain ⟨merged, hmerged, amounts, hamounts, m, hm, accounts, haccounts, rfl⟩ := h
  obtain ⟨seed, hseed, hopen⟩ := mem_of_mapM_ok haccounts ha
  rw [(openAccount_eq_ok hopen).2.1]
  rcases List.mem_append.mp hseed with hseed | hseed
  · obtain ⟨x, hx, rfl⟩ := List.mem_map.mp hseed
    exact aggregateEntitlements_spelled hrows hmerged ((allocateWeightedAmounts_eq_ok hamounts).mem_entries hx)
  · obtain ⟨b, hb, rfl⟩ := pushPriorSeeds_mem hseed
    exact carryForward_spelled hpriors hm hb

theorem poolFeeManifest_identity {coinbase : U64} (h : poolFeeManifest coinbase policy = .ok fee) :
    fee.map (·.toPayoutIdentity) = policy.poolFeePolicy.map (·.toPayoutIdentity) := by
  unfold poolFeeManifest at h
  cases hp : policy.poolFeePolicy with
  | none =>
    rw [hp] at h
    cases h
    rfl
  | some feePolicy =>
    simp only [hp, bind_eq_ok, pure_eq_ok] at h
    obtain ⟨-, -, product, -, amount, -, rfl⟩ := h
    rfl

theorem Swept.identity {fee' : Option PoolFeeManifest} {dust : ℕ} (h : Swept fee fee' dust) :
    fee'.map (·.toPayoutIdentity) = fee.map (·.toPayoutIdentity) := by
  cases h with
  | nothing => rfl
  | dust hidentity _ _ _ => exact congrArg some hidentity

theorem applyPayoutPolicy_spelled {r : PrismRewardManifest} {m : PayoutPolicyManifest}
    (hrows : ∀ e ∈ r.entitlements, P e.p2mrProgramHex) (hpriors : ∀ b ∈ priors, P b.p2mrProgramHex)
    (hfee : ∀ fee ∈ policy.poolFeePolicy, P fee.p2mrProgramHex) (h : applyPayoutPolicy r priors policy = .ok m)
    (he : e ∈ m.onchainEntitlements) : P e.p2mrProgramHex := by
  simp only [applyPayoutPolicy, bind_eq_ok, okOr_eq_ok, require_eq_ok, pure_eq_ok,
    Unsigned.checkedSub_eq_some, exists_and_left, exists_const] at h
  obtain ⟨floor, -, fee, hpool, -, reward, -, -, opened, hopened, plan, hplan, settled, hsettled,
    accounts, haccounts, sum, -, -, rfl⟩ := h
  have hopen := openAccounts_eq_ok hopened
  have hplanned := planOnchain_eq_ok hopen.identities_nodup hplan
  obtain ⟨settled', hsettled', hspec⟩ := settle_plan r.coinbaseValueSats hopen.isOpen
    hopen.identities_nodup hplanned
  cases hsettled.symm.trans hsettled'
  obtain ⟨rfl, -⟩ := pushPoolFeeAccount_eq_ok haccounts
  obtain ⟨a, ha, rfl⟩ := List.mem_map.mp he
  rcases List.mem_append.mp (List.mem_filter.mp ha).1 with ha | ha
  · have hunpaid : a.unpaid ∈ opened.accounts := hspec.unpaid ▸ List.mem_map_of_mem ha
    have hspelled : P a.unpaid.p2mrProgramHex := openAccounts_spelled hrows hpriors hopened hunpaid
    exact hspelled
  · obtain ⟨f, hf, rfl⟩ := List.mem_map.mp ha
    obtain ⟨dust, -, hswept⟩ := hplanned.swept
    have hidentity := hswept.identity.trans (poolFeeManifest_identity hpool)
    rw [Option.mem_toList.mp hf] at hidentity
    obtain ⟨feePolicy, hpolicy, hsame⟩ := Option.map_eq_some_iff.mp hidentity.symm
    have hspelled := hfee feePolicy hpolicy
    rw [hsame] at hspelled
    exact hspelled

end

theorem computePrismWindowInCut_spelled {P : String → Prop} {shares : List AcceptedShare} {foundBlock : FoundBlock}
    {cut : Option WindowCut} {window : PrismWindow} (hshares : ∀ share ∈ shares, P share.p2mrProgramHex)
    (h : computePrismWindowInCut shares foundBlock cut = .ok window) (he : e ∈ window.entitlements) :
    P e.p2mrProgramHex := by
  obtain ⟨share, hshare, hidentity⟩ := computePrismWindowInCut_entitled h he
  rw [hidentity]
  exact hshares share hshare

end QbitPrism
