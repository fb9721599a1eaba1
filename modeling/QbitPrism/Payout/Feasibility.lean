import Mathlib
import QbitPrism.Payout.Conservation

/-!
# When the policy can pay a block

With a pool fee configured, a shortfall of the eligible accounts is swept into the
fee and the block is paid. What can still refuse a block is the pruning loop: it
drops the accounts whose proportional share falls under the floor and gives up once
the rest hold less than the reward.
-/
namespace QbitPrism
open MachineInt Checked MergeByKey SortBy LargestRemainder List

/-- One round of pruning: the accounts whose share of the reward reaches the floor. -/
def prune (reward floor : U64) (selected : List PayoutPolicyAccount) : List PayoutPolicyAccount :=
  match allocateWeightedAmounts reward (candidateWeights selected) with
  | .ok allocations =>
    selected.filter fun a => accountKey a.toPayoutIdentity ∉ underFloorKeys allocations floor
  | .error _ => selected

/-- The accounts left after any number of rounds hold at least the reward. -/
def PruningCovers (reward floor : U64) (eligible : List PayoutPolicyAccount) : Prop :=
  ∀ k, (reward.val : ℤ) ≤ candidateSum ((prune reward floor)^[k] eligible)

inductive PruningRefusal (reward : U64) : PrismError → Prop
  | nobody : PruningRefusal reward .noOnchainRecipients
  | uncovered (sum : U128) : PruningRefusal reward (.payoutExceedsCandidateBalance reward sum)

/-- No operation of a pruning round over these accounts overflows. -/
structure CandidatesFit (reward : U64) (selected : List PayoutPolicyAccount) : Prop where
  nonneg : ∀ a ∈ selected, 0 ≤ a.candidateBalanceSats.val
  sum : candidateSum selected < 2 ^ 128
  product : ∀ a ∈ selected, (reward.val : ℤ) * a.candidateBalanceSats.val < 2 ^ 128

variable {xs ys accounts : List PayoutPolicyAccount} {a : PayoutPolicyAccount}

theorem candidateSum_sublist (h : xs.Sublist ys) (hnonneg : ∀ a ∈ ys, 0 ≤ a.candidateBalanceSats.val) :
    candidateSum xs ≤ candidateSum ys := by
  refine (h.map _).sum_le_sum fun z hz => ?_
  obtain ⟨a, ha, rfl⟩ := mem_map.mp hz
  exact hnonneg a ha

variable {reward : U64}

theorem CandidatesFit.sublist (h : CandidatesFit reward ys) (hsub : xs.Sublist ys) : CandidatesFit reward xs where
  nonneg a ha := h.nonneg a (hsub.subset ha)
  sum := lt_of_le_of_lt (candidateSum_sublist hsub h.nonneg) h.sum
  product a ha := h.product a (hsub.subset ha)

theorem prune_sublist (reward floor : U64) (selected : List PayoutPolicyAccount) :
    (prune reward floor selected).Sublist selected := by
  unfold prune
  split
  · exact filter_sublist
  · exact List.Sublist.refl _

variable {selected : List PayoutPolicyAccount}

theorem CandidatesFit.allocates (h : CandidatesFit reward selected) (hpos : 0 < candidateSum selected) :
    ∃ allocations, allocateWeightedAmounts reward (candidateWeights selected) = .ok allocations := by
  have hsum := candidateWeights_sum h.nonneg
  have hfit := h.sum
  refine allocateWeightedAmounts_isOk reward (by omega) (by omega) fun e he => ?_
  obtain ⟨a, ha, rfl⟩ := mem_map.mp he
  zify
  rw [I128.asU128_val (h.nonneg a ha)]
  exact h.product a ha

variable {floor : U64} {allocations : List (WeightedEntitlement × U64)}

section
variable (halloc : allocateWeightedAmounts reward (candidateWeights selected) = .ok allocations)
include halloc

theorem underFloorKeys_mem {key : String} (hkey : key ∈ underFloorKeys allocations floor) :
    ∃ a ∈ selected, accountKey a.toPayoutIdentity = key := by
  obtain ⟨x, hx, rfl⟩ := mem_map.mp hkey
  have hmem := (allocateWeightedAmounts_eq_ok halloc).mem_entries (mem_filter.mp hx).1
  obtain ⟨a, ha, hax⟩ := mem_map.mp hmem
  exact ⟨a, ha, by rw [← hax]⟩

theorem prune_eq_self
    (hnone : underFloorKeys allocations floor = []) : prune reward floor selected = selected := by
  simp [prune, halloc, hnone]

theorem prune_shrinks (hsome : underFloorKeys allocations floor ≠ []) :
    (prune reward floor selected).length < selected.length := by
  obtain ⟨key, hkey⟩ := exists_mem_of_ne_nil _ hsome
  obtain ⟨a, ha, hak⟩ := underFloorKeys_mem halloc hkey
  simp only [prune, halloc]
  exact length_filter_lt_length_iff_exists.mpr ⟨a, ha, by simpa [hak] using hkey⟩

end

theorem selectLoop_answers (hreward : 0 < reward.val) {fuel : ℕ}
    (hfit : CandidatesFit reward selected) (hfuel : selected.length < fuel) :
    (PruningCovers reward floor selected ∧ ∃ out, selectLoop reward floor fuel selected = .ok out) ∨
      (¬PruningCovers reward floor selected ∧
        ∃ e, selectLoop reward floor fuel selected = .error e ∧ PruningRefusal reward e) := by
  induction fuel generalizing selected with
  | zero => exact absurd hfuel (Nat.not_lt_zero _)
  | succ fuel ih =>
    obtain ⟨sum, hsum, hval⟩ := selectedCandidateBalanceSum_isOk hfit.nonneg hfit.sum
    by_cases hempty : selected = []
    · subst hempty
      refine .inr ⟨fun h => ?_, _, rfl, .nobody⟩
      have := h 0
      simp only [Function.iterate_zero, id_eq, candidateSum, map_nil, sum_nil] at this
      omega
    by_cases hcover : reward.val ≤ sum.val
    · obtain ⟨allocations, halloc⟩ := hfit.allocates (by omega)
      by_cases hunder : underFloorKeys allocations floor = []
      · refine .inl ⟨fun k => ?_, selected, ?_⟩
        · rw [Function.iterate_fixed (prune_eq_self halloc hunder)]
          omega
        · simp only [selectLoop, require_of hempty, ok_bind, hsum, require_of hcover, halloc, hunder, ↓reduceIte]
          rfl
      · have hstep : selectLoop reward floor (fuel + 1) selected =
            selectLoop reward floor fuel (prune reward floor selected) := by
          simp only [selectLoop, require_of hempty, ok_bind, hsum, require_of hcover, halloc, hunder,
            ↓reduceIte, prune]
        have hrec := ih (hfit.sublist (prune_sublist reward floor selected))
          (by have := prune_shrinks halloc hunder; omega)
        have hcovers : PruningCovers reward floor selected ↔
            PruningCovers reward floor (prune reward floor selected) := by
          constructor
          · exact fun h k => h (k + 1)
          · rintro h (_ | k)
            · simp only [Function.iterate_zero, id_eq]
              omega
            · exact h k
        rw [hstep, hcovers]
        exact hrec
    · refine .inr ⟨fun h => ?_, _, ?_, .uncovered sum⟩
      · have := h 0
        simp only [Function.iterate_zero, id_eq] at this
        omega
      · simp only [selectLoop, require_of hempty, ok_bind, hsum, require_of_not hcover, error_bind]

/-- The reward is either not held by the eligible accounts, so that the pool fee takes
the rest, or still held by them after every round of pruning. -/
def Payable (accounts : List PayoutPolicyAccount) (reward floor : U64) : Prop :=
  candidateSum (eligibleOnchainAccounts accounts floor) < reward.val ∨
    PruningCovers reward floor (eligibleOnchainAccounts accounts floor)

variable {fee : PoolFeeManifest}

theorem addSweptDustToPoolFee_isOk (hfee : fee.Unswept) (dust : U64)
    (hfit : fee.earnedPoolFeeSats.val + dust.val < 2 ^ 64) :
    ∃ fee', addSweptDustToPoolFee (some fee) dust = .ok (some fee') ∧
      fee'.toPayoutIdentity = fee.toPayoutIdentity := by
  unfold addSweptDustToPoolFee
  split_ifs
  · exact ⟨fee, rfl, rfl⟩
  · have hswept : fee.sweptDustLiabilitySats.checkedAdd dust = some dust :=
      Unsigned.checkedAdd_eq_some.mpr (by rw [hfee.swept, Unsigned.val_zero, Nat.zero_add])
    have hamount : fee.earnedPoolFeeSats.checkedAdd dust = some ⟨_, hfit⟩ :=
      Unsigned.checkedAdd_eq_some.mpr rfl
    refine ⟨{ fee with sweptDustLiabilitySats := dust, amountSats := ⟨_, hfit⟩ }, ?_, rfl⟩
    simp only [okOr_some, ok_bind, hswept, hamount]
    rfl

theorem candidateAmount_isOk (h0 : 0 ≤ a.candidateBalanceSats.val) (hfit : a.candidateBalanceSats.val < 2 ^ 64) :
    ∃ x, candidateAmount a = .ok x := by
  have hamount : I128.toU64? a.candidateBalanceSats = some ⟨a.candidateBalanceSats.val.toNat, by omega⟩ :=
    I128.toU64?_eq_some.mpr (Int.toNat_of_nonneg h0)
  exact ⟨_, by simp only [candidateAmount, hamount, okOr_some, ok_bind]; rfl⟩

theorem le_candidateSum (hnonneg : ∀ b ∈ accounts, 0 ≤ b.candidateBalanceSats.val) (ha : a ∈ accounts) :
    a.candidateBalanceSats.val ≤ candidateSum accounts := by
  refine single_le_sum (fun z hz => ?_) _ (mem_map_of_mem ha)
  obtain ⟨b, hb, rfl⟩ := mem_map.mp hz
  exact hnonneg b hb

theorem planOnchain_answers (hfee : fee.Unswept) (hreward : 0 < reward.val)
    (htotal : fee.earnedPoolFeeSats.val + reward.val < 2 ^ 64)
    (hsum : candidateSum (eligibleOnchainAccounts accounts floor) < 2 ^ 128)
    (hproduct : (reward.val : ℤ) ≤ candidateSum (eligibleOnchainAccounts accounts floor) → ∀ a ∈ eligibleOnchainAccounts accounts floor, (reward.val : ℤ) * a.candidateBalanceSats.val < 2 ^ 128) :
    (Payable accounts reward floor ∧ ∃ plan fee', planOnchain accounts (some fee) reward floor = .ok plan ∧
        plan.poolFee = some fee' ∧ fee'.toPayoutIdentity = fee.toPayoutIdentity) ∨
      (¬Payable accounts reward floor ∧ ∃ e, planOnchain accounts (some fee) reward floor = .error e ∧
        PruningRefusal reward e) := by
  have hnonneg : ∀ a ∈ eligibleOnchainAccounts accounts floor, 0 ≤ a.candidateBalanceSats.val :=
    fun a => eligible_nonneg
  by_cases hempty : eligibleOnchainAccounts accounts floor = []
  · obtain ⟨fee', hswept, hid⟩ := addSweptDustToPoolFee_isOk hfee reward htotal
    refine .inl ⟨.inl ?_, ⟨some fee', []⟩, fee', ?_, rfl, hid⟩
    · rw [hempty]
      simpa [candidateSum] using hreward
    · simp only [planOnchain, hempty, ↓reduceIte, require_of (show (some fee).isSome = true from rfl),
        ok_bind, hswept]
      rfl
  obtain ⟨sum, hsumOk, hval⟩ := selectedCandidateBalanceSum_isOk hnonneg hsum
  by_cases hshort : sum.val < reward.val
  · -- The eligible accounts are paid in full and the rest of the reward is swept.
    have hfit : sum.val < 2 ^ 64 := lt_trans hshort reward.isLt
    have hpaid : (Unsigned.ofNat? sum.val : Option U64) = some ⟨sum.val, hfit⟩ :=
      Unsigned.ofNat?_eq_some.mpr rfl
    have hdust : reward.checkedSub ⟨sum.val, hfit⟩ = some ⟨reward.val - sum.val, by omega⟩ :=
      Unsigned.checkedSub_eq_some.mpr (by simp only; omega)
    obtain ⟨fee', hswept, hid⟩ := addSweptDustToPoolFee_isOk hfee
      ⟨reward.val - sum.val, by omega⟩ (by simp only; omega)
    obtain ⟨amounts, hamounts⟩ := mapM_isOk candidateAmount
      fun a (ha : a ∈ eligibleOnchainAccounts accounts floor) => by
        have hle := le_candidateSum hnonneg ha
        exact candidateAmount_isOk (hnonneg a ha) (by omega)
    refine .inl ⟨.inl (by omega), ⟨some fee', amounts⟩, fee', ?_, rfl, hid⟩
    simp only [planOnchain, hempty, ↓reduceIte, hsumOk, ok_bind, hshort,
      require_of (show (some fee).isSome = true from rfl), hpaid, okOr_some, hdust, hswept, hamounts]
    rfl
  · have hcovered : (reward.val : ℤ) ≤ candidateSum (eligibleOnchainAccounts accounts floor) := by omega
    have hfit : CandidatesFit reward (eligibleOnchainAccounts accounts floor) :=
      ⟨hnonneg, hsum, hproduct hcovered⟩
    have hiff : Payable accounts reward floor ↔
        PruningCovers reward floor (eligibleOnchainAccounts accounts floor) :=
      or_iff_right (not_lt.mpr hcovered)
    rw [hiff]
    rcases selectLoop_answers hreward hfit (Nat.lt_succ_self _) with ⟨hcov, out, hout⟩ | ⟨hcov, e, he, href⟩
    · obtain ⟨amounts, hamounts, -⟩ := (selectLoop_eq_ok hout).allocates
      refine .inl ⟨hcov, ⟨some fee, amounts⟩, fee, ?_, rfl, rfl⟩
      simp only [planOnchain, hempty, ↓reduceIte, hsumOk, ok_bind, hshort, selectOnchainAccounts, hout, hamounts]
      rfl
    · refine .inr ⟨hcov, e, ?_, href⟩
      simp only [planOnchain, hempty, ↓reduceIte, hsumOk, ok_bind, hshort, selectOnchainAccounts, he, error_bind]

/-- Every checked operation of the policy that its inputs can overflow stays in range:
the weights and their products with the reward, the running balances, the candidate
balances, and the candidates of the eligible accounts with their products. -/
structure PolicyFits (entitlements : List WeightedEntitlement) (priors : List CarryForwardBalance)
    (reward floor : U64) : Prop where
  weights : (entitlements.map fun e => e.weight.val).sum < 2 ^ 128
  products : ∀ k, reward.val * programWeight entitlements k < 2 ^ 128
  balances : RunningBalancesFit priors
  candidates : ∀ merged amounts, aggregateEntitlementsByPayoutProgram entitlements = .ok merged →
    allocateWeightedAmounts reward merged = .ok amounts → ∀ x ∈ amounts,
      FitsI128 (programBalance priors x.1.programKey + x.2.val)
  eligible : ∀ opened, openAccounts entitlements priors reward = .ok opened →
    candidateSum (eligibleOnchainAccounts opened.accounts floor) < 2 ^ 128 ∧
      ((reward.val : ℤ) ≤ candidateSum (eligibleOnchainAccounts opened.accounts floor) →
        ∀ a ∈ eligibleOnchainAccounts opened.accounts floor,
          (reward.val : ℤ) * a.candidateBalanceSats.val < 2 ^ 128)

variable {entitlements : List WeightedEntitlement}

theorem openAccounts_isOk {priors : List CarryForwardBalance} (hfits : PolicyFits entitlements priors reward floor)
    (hpos : ∃ e ∈ entitlements, 0 < e.weight.val) :
    ∃ opened, openAccounts entitlements priors reward = .ok opened := by
  obtain ⟨merged, hmerged⟩ := aggregateEntitlements_isOk hfits.weights
  have hagg := aggregateEntitlements_eq_ok hmerged
  obtain ⟨e, he, hweight⟩ := hpos
  have htotal : 0 < (merged.map fun e => e.weight.val).sum := by
    rw [hagg.total]
    exact lt_of_lt_of_le hweight
      (single_le_sum (fun _ _ => Nat.zero_le _) _ (mem_map_of_mem (f := fun e => e.weight.val) he))
  obtain ⟨amounts, hamounts⟩ := allocateWeightedAmounts_isOk reward htotal
    (hagg.total ▸ hfits.weights) fun x hx => hagg.weight x hx ▸ hfits.products _
  obtain ⟨m, hm⟩ := balanceMerger_isOk .payoutPolicyOverflow hfits.balances
  have hbal := balanceMerger_eq_ok hm
  obtain ⟨accounts, haccounts⟩ := mapM_isOk openAccount (fun s (hs : s ∈ accountSeeds m amounts) => by
    refine openAccount_isOk ?_
    rcases mem_append.mp hs with hs | hs
    · obtain ⟨x, hx, rfl⟩ := mem_map.mp hs
      rw [entitlementSeed_prior hbal]
      exact hfits.candidates merged amounts hmerged hamounts x hx
    · obtain ⟨b, -, rfl⟩ := pushPriorSeeds_mem hs
      simp only [priorSeed, Unsigned.val_zero, Nat.cast_zero, add_zero]
      exact ⟨b.balanceSats.lower, b.balanceSats.upper⟩)
  have hm' : carryForwardByPayoutProgram priors = .ok m := hm
  refine ⟨⟨accounts, (pushPriorSeeds (values m) (amounts.map fun x => x.1.programKey)).2⟩, ?_⟩
  simp only [accountSeeds] at haccounts
  simp only [openAccounts, hmerged, ok_bind, hamounts, hm', haccounts]
  rfl

def earnedPoolFee (coinbase : U64) (feePolicy : PoolFeePolicy) : ℕ :=
  coinbase.val * feePolicy.feeBps.val / 10000

theorem earnedPoolFee_le (coinbase : U64) {feePolicy : PoolFeePolicy} (h : feePolicy.feeBps.val ≤ 10000) :
    earnedPoolFee coinbase feePolicy ≤ coinbase.val :=
  Nat.div_le_of_le_mul (by rw [Nat.mul_comm 10000]; exact Nat.mul_le_mul_left _ h)

theorem poolFeeManifest_isOk (coinbase : U64) {policy : PayoutPolicy} {feePolicy : PoolFeePolicy}
    (hfee : policy.poolFeePolicy = some feePolicy) (hbps : feePolicy.feeBps.val ≤ 10000) :
    ∃ fee : PoolFeeManifest, poolFeeManifest coinbase policy = .ok (some fee) ∧
      fee.toPayoutIdentity = feePolicy.toPayoutIdentity ∧
      fee.amountSats.val = earnedPoolFee coinbase feePolicy := by
  have hprod : coinbase.val * feePolicy.feeBps.val < 2 ^ 128 :=
    lt_of_lt_of_le (Nat.mul_lt_mul'' coinbase.isLt feePolicy.feeBps.isLt) (by norm_num)
  have hproduct : (Unsigned.ofNat? (coinbase.val * feePolicy.feeBps.val) : Option U128) = some ⟨_, hprod⟩ :=
    Unsigned.ofNat?_eq_some.mpr rfl
  have hearned : earnedPoolFee coinbase feePolicy < 2 ^ 64 :=
    lt_of_le_of_lt (earnedPoolFee_le coinbase hbps) coinbase.isLt
  have hamount : (Unsigned.ofNat? (coinbase.val * feePolicy.feeBps.val / 10000) : Option U64) =
      some ⟨earnedPoolFee coinbase feePolicy, hearned⟩ := Unsigned.ofNat?_eq_some.mpr rfl
  refine ⟨{ feePolicy.toPayoutIdentity with
    feeBps := feePolicy.feeBps
    earnedPoolFeeSats := ⟨_, hearned⟩
    sweptDustLiabilitySats := 0
    amountSats := ⟨_, hearned⟩ }, ?_, rfl, rfl⟩
  simp only [poolFeeManifest, hfee, require_of hbps, ok_bind, hproduct, okOr_some, hamount]
  rfl

theorem onchainSum_isOk (h : (entitlements.map fun e => e.weight.val).sum < 2 ^ 64) :
    ∃ sum, onchainSum entitlements = .ok sum := by
  obtain ⟨sum, hsum, -⟩ := foldlM_isOk
    (fun sum (e : WeightedEntitlement) => do
      let weight ← okOr (Unsigned.ofNat? e.weight.val) PrismError.payoutPolicyOverflow
      okOr (sum.checkedAdd weight) .payoutPolicyOverflow) entitlements 0
    (fun done (acc : U64) => acc.val = (done.map fun e : WeightedEntitlement => e.weight.val).sum)
    (by simp) (by
      rintro done e acc ⟨rest, rfl⟩ hacc
      simp only [map_append, map_cons, map_nil, sum_append, sum_cons, sum_nil] at h ⊢
      have hw : (Unsigned.ofNat? e.weight.val : Option U64) = some ⟨e.weight.val, by omega⟩ :=
        Unsigned.ofNat?_eq_some.mpr rfl
      have hadd : acc.checkedAdd ⟨e.weight.val, by omega⟩ = some ⟨acc.val + e.weight.val, by omega⟩ :=
        Unsigned.checkedAdd_eq_some.mpr rfl
      exact ⟨⟨acc.val + e.weight.val, by omega⟩, by simp only [hw, hadd, okOr_some, ok_bind],
        by simp only; omega⟩)
  exact ⟨sum, hsum⟩

/-- The setting of a pool with a fee: the fee's rate and program are valid, the floor is
positive and the miner reward reaches it, and somebody has earned a share. -/
structure FeeConfigured (r : PrismRewardManifest) (priors : List CarryForwardBalance)
    (policy : PayoutPolicy) (feePolicy : PoolFeePolicy) (floor reward : U64) : Prop where
  fee : policy.poolFeePolicy = some feePolicy
  bps : feePolicy.feeBps.val ≤ 10000
  not_miner : ∀ e ∈ r.entitlements, e.programKey ≠ feePolicy.programKey
  not_prior : ∀ b ∈ priors, b.programKey ≠ feePolicy.programKey
  floor_ok : policy.minOutputSats = .ok floor
  floor_pos : 1 ≤ floor.val
  reward_eq : reward.val = r.coinbaseValueSats.val - earnedPoolFee r.coinbaseValueSats feePolicy
  reward_ge : floor.val ≤ reward.val
  positive : ∃ e ∈ r.entitlements, 0 < e.weight.val

section Answers
variable {r : PrismRewardManifest} {priors : List CarryForwardBalance} {policy : PayoutPolicy}
  {feePolicy : PoolFeePolicy} {floor reward : U64}

variable {opened : OpenedAccounts}

theorem FeeConfigured.unfold_policy (h : FeeConfigured r priors policy feePolicy floor reward)
    (hfee : poolFeeManifest r.coinbaseValueSats policy = .ok (some fee))
    (hamount : fee.amountSats.val = earnedPoolFee r.coinbaseValueSats feePolicy)
    (hopened : openAccounts r.entitlements priors reward = .ok opened) :
    applyPayoutPolicy r priors policy = (do
      let plan ← planOnchain opened.accounts (some fee) reward floor
      let settled ← plan.amounts.foldlM (settleAmount r.coinbaseValueSats floor) opened.accounts
      let accounts ← pushPoolFeeAccount plan.poolFee opened.seenAccounts settled
      let entitlements := onchainEntitlements accounts
      let sum ← onchainSum entitlements
      require (sum = r.coinbaseValueSats) .payoutPolicyOverflow
      pure {
        schema := "qbit.prism.payout-policy.v1"
        blockHeight := r.blockHeight
        coinbaseValueSats := r.coinbaseValueSats
        minOutputSats := floor
        floorFormula := policy.floorFormula
        coinbaseOutputPolicy := policy.coinbaseOutputPolicy
        poolFee := plan.poolFee
        accounts := sortBy PayoutPolicyAccount.cmp accounts
        onchainEntitlements := entitlements }) := by
  have hsub : r.coinbaseValueSats.checkedSub fee.amountSats = some reward := by
    refine Unsigned.checkedSub_eq_some.mpr ?_
    have := earnedPoolFee_le r.coinbaseValueSats h.bps
    rw [hamount, h.reward_eq]
    omega
  have hfirst : ¬(policy.coinbaseOutputPolicy = .poolFeeFirst ∧ (some fee) = none) := by simp
  simp only [applyPayoutPolicy, h.floor_ok, ok_bind, hfee, require_of hfirst, Option.map_some,
    Option.getD_some, hsub, okOr_some, require_of h.reward_ge, hopened]

theorem FeeConfigured.ok_of_plan (h : FeeConfigured r priors policy feePolicy floor reward) {fee' : PoolFeeManifest}
    (hfee : poolFeeManifest r.coinbaseValueSats policy = .ok (some fee))
    (hid : fee.toPayoutIdentity = feePolicy.toPayoutIdentity)
    (hamount : fee.amountSats.val = earnedPoolFee r.coinbaseValueSats feePolicy)
    (hopened : openAccounts r.entitlements priors reward = .ok opened) {plan : OnchainPlan}
    (hplan : planOnchain opened.accounts (some fee) reward floor = .ok plan) (hfee' : plan.poolFee = some fee')
    (hid' : fee'.toPayoutIdentity = fee.toPayoutIdentity) : ∃ m, applyPayoutPolicy r priors policy = .ok m := by
  have hopen := openAccounts_eq_ok hopened
  have hplanned := planOnchain_eq_ok hopen.identities_nodup hplan
  obtain ⟨settled, hsettled, hspec⟩ := settle_plan r.coinbaseValueSats hopen.isOpen
    hopen.identities_nodup hplanned
  have hkey : fee'.programKey = feePolicy.programKey := by
    rw [PayoutIdentity.programKey, PayoutIdentity.programKey, hid', hid]
  have hnew : fee'.programKey ∉ opened.seenAccounts := by
    rw [hopen.seen, hopen.programs, hkey]
    rintro (⟨e, he, heq⟩ | ⟨b, hb, heq⟩)
    · exact h.not_miner e he heq
    · exact h.not_prior b hb heq
  let accounts := settled ++ plan.poolFee.toList.map poolFeeAccount
  have hpush : pushPoolFeeAccount plan.poolFee opened.seenAccounts settled = .ok accounts := by
    simp only [accounts, hfee', pushPoolFeeAccount, require_of hnew, ok_bind]
    rfl
  let m : PayoutPolicyManifest :=
    { schema := "qbit.prism.payout-policy.v1"
      blockHeight := r.blockHeight
      coinbaseValueSats := r.coinbaseValueSats
      minOutputSats := floor
      floorFormula := policy.floorFormula
      coinbaseOutputPolicy := policy.coinbaseOutputPolicy
      poolFee := plan.poolFee
      accounts := sortBy PayoutPolicyAccount.cmp accounts
      onchainEntitlements := onchainEntitlements accounts }
  have hcoinbase : r.coinbaseValueSats.val = fee.amountSats.val + reward.val := by
    have := earnedPoolFee_le r.coinbaseValueSats h.bps
    rw [hamount, h.reward_eq]
    omega
  let run : PolicyRun r priors policy m := ⟨floor, some fee, reward, opened, plan, settled,
    poolFeeManifest_eq_ok hfee, hcoinbase, hopen, hplanned, hspec, (pushPoolFeeAccount_eq_ok hpush).2,
    rfl, rfl, rfl, rfl, rfl⟩
  have htotal : ((onchainEntitlements accounts).map fun e => e.weight.val).sum = r.coinbaseValueSats.val := by
    rw [onchainEntitlements_sum, ← run.onchain_total]
    exact (sum_map_sortBy PayoutPolicyAccount.cmp _ accounts).symm
  obtain ⟨sum, hsum⟩ := onchainSum_isOk (htotal ▸ r.coinbaseValueSats.isLt)
  have heq : sum = r.coinbaseValueSats := Unsigned.ext ((onchainSum_eq_ok hsum).trans htotal)
  refine ⟨m, ?_⟩
  rw [h.unfold_policy hfee hamount hopened]
  simp only [hplan, ok_bind, hsettled, hpush, hsum, require_of heq]
  rfl

theorem Opened.candidateSum_le (h : Opened entitlements priors reward.val opened) (floor : U64)
    (hprior : ∀ k, programBalance priors k ≤ 0) :
    candidateSum (eligibleOnchainAccounts opened.accounts floor) ≤ reward.val := by
  calc candidateSum (eligibleOnchainAccounts opened.accounts floor)
      ≤ ((eligibleOnchainAccounts opened.accounts floor).map fun a => (a.grossAmountSats.val : ℤ)).sum := by
        refine sum_le_sum fun a ha => ?_
        have hmem := (mem_eligible.mp ha).1
        have hle := hprior a.programKey
        rw [← h.prior a hmem] at hle
        rw [(h.isOpen a hmem).candidate]
        omega
    _ ≤ (opened.accounts.map fun a => (a.grossAmountSats.val : ℤ)).sum :=
        (filter_sublist.map _).sum_le_sum fun z hz => by
          obtain ⟨a, -, rfl⟩ := mem_map.mp hz
          exact Int.natCast_nonneg _
    _ = reward.val := by
        rw [← h.gross, Nat.cast_list_sum, map_map]
        rfl

theorem Opened.candidatesFit (h : Opened entitlements priors reward.val opened) (floor : U64)
    (hprior : ∀ k, programBalance priors k ≤ 0) :
    CandidatesFit reward (eligibleOnchainAccounts opened.accounts floor) := by
  have hnonneg : ∀ a ∈ eligibleOnchainAccounts opened.accounts floor, 0 ≤ a.candidateBalanceSats.val :=
    fun a => eligible_nonneg
  have hle := h.candidateSum_le floor hprior
  have hlt : (reward.val : ℤ) < 2 ^ 64 := by exact_mod_cast reward.isLt
  refine ⟨hnonneg, by omega, fun a ha => ?_⟩
  have hcand := le_candidateSum hnonneg ha
  calc (reward.val : ℤ) * a.candidateBalanceSats.val
      ≤ reward.val * reward.val := mul_le_mul_of_nonneg_left (by omega) (Int.natCast_nonneg _)
    _ < 2 ^ 64 * 2 ^ 64 := mul_lt_mul'' hlt hlt (Int.natCast_nonneg _) (Int.natCast_nonneg _)
    _ = 2 ^ 128 := by norm_num

theorem prune_exact {eligible : List PayoutPolicyAccount} (hfit : CandidatesFit reward eligible)
    (hreward : 0 < reward.val) (hfloor : ∀ a ∈ eligible, (floor.val : ℤ) ≤ a.candidateBalanceSats.val)
    (hexact : candidateSum eligible = reward.val) : prune reward floor eligible = eligible := by
  obtain ⟨allocations, halloc⟩ := hfit.allocates (by omega)
  refine prune_eq_self halloc ?_
  have hspec := allocateWeightedAmounts_eq_ok halloc
  have hsum := candidateWeights_sum hfit.nonneg
  rw [underFloorKeys, map_eq_nil_iff, filter_eq_nil_iff]
  intro x hx
  obtain ⟨a, ha, hax⟩ := mem_map.mp (hspec.mem_entries hx)
  have hquota := hspec.quota x hx
  rw [show ((candidateWeights eligible).map fun e => e.weight.val).sum = reward.val by omega] at hquota
  have hval := hquota.eq_weight hreward
  rw [← hax] at hval
  have hcand := I128.asU128_val (hfit.nonneg a ha)
  have := hfloor a ha
  simp only at hval
  simp only [decide_eq_true_eq, not_lt]
  omega

theorem Opened.payable (h : Opened entitlements priors reward.val opened)
    (hprior : ∀ k, programBalance priors k ≤ 0) (hreward : 0 < reward.val) :
    Payable opened.accounts reward floor := by
  have hle := h.candidateSum_le floor hprior
  rcases hle.lt_or_eq with hlt | heq
  · exact .inl hlt
  · right
    intro k
    rw [Function.iterate_fixed (prune_exact (h.candidatesFit floor hprior) hreward (fun a ha => (mem_eligible.mp ha).2) heq)]
    exact heq.ge

theorem PolicyFits.carryFree (h : (entitlements.map fun e => e.weight.val).sum < 2 ^ 64) :
    PolicyFits entitlements [] reward floor := by
  have hnone : ∀ k, programBalance [] k ≤ 0 := fun k => le_refl 0
  refine ⟨lt_trans h (by norm_num), fun k => ?_, ?_, ?_, fun opened hopened => ?_⟩
  · calc reward.val * programWeight entitlements k
        ≤ reward.val * (entitlements.map fun e => e.weight.val).sum :=
          Nat.mul_le_mul_left _ (programWeight_le_total entitlements k)
      _ < 2 ^ 64 * 2 ^ 64 := Nat.mul_lt_mul'' reward.isLt h
      _ = 2 ^ 128 := by norm_num
  · rintro done b hpre
    exact absurd hpre.length_le (by simp)
  · rintro merged amounts - - x -
    have := x.2.isLt
    simp only [programBalance, FitsI128, filter_nil, map_nil, sum_nil]
    omega
  · have hfit := (openAccounts_eq_ok hopened).candidatesFit floor hnone
    exact ⟨hfit.sum, fun _ => hfit.product⟩

/-- With a pool fee configured and no overflow, a block is refused only by the pruning
loop: exactly when the eligible accounts hold the reward but some round of pruning
leaves less than it. Work without positive carried balances is never refused. -/
theorem applyPayoutPolicy_answers (h : FeeConfigured r priors policy feePolicy floor reward)
    (hfits : PolicyFits r.entitlements priors reward floor) :
    ∃ opened, openAccounts r.entitlements priors reward = .ok opened ∧
      ((∃ m, applyPayoutPolicy r priors policy = .ok m) ↔ Payable opened.accounts reward floor) ∧
      (¬Payable opened.accounts reward floor →
        ∃ e, applyPayoutPolicy r priors policy = .error e ∧ PruningRefusal reward e) ∧
      ((∀ k, programBalance priors k ≤ 0) → ∃ m, applyPayoutPolicy r priors policy = .ok m) := by
  obtain ⟨opened, hopened⟩ := openAccounts_isOk hfits h.positive
  obtain ⟨fee, hfee, hid, hamount⟩ := poolFeeManifest_isOk r.coinbaseValueSats h.fee h.bps
  have hunswept := poolFeeManifest_eq_ok hfee fee rfl
  have hreward : 0 < reward.val := lt_of_lt_of_le h.floor_pos h.reward_ge
  have htotal : fee.earnedPoolFeeSats.val + reward.val < 2 ^ 64 := by
    have := earnedPoolFee_le r.coinbaseValueSats h.bps
    have := r.coinbaseValueSats.isLt
    rw [← hunswept.amount, hamount, h.reward_eq]
    omega
  have hanswers := planOnchain_answers hunswept hreward htotal (hfits.eligible opened hopened).1
    (hfits.eligible opened hopened).2
  have hok : Payable opened.accounts reward floor → ∃ m, applyPayoutPolicy r priors policy = .ok m := by
    intro hpay
    rcases hanswers with ⟨-, plan, fee', hplan, hfee', hid'⟩ | ⟨hnot, -⟩
    · exact h.ok_of_plan hfee hid hamount hopened hplan hfee' hid'
    · exact absurd hpay hnot
  have herror : ¬Payable opened.accounts reward floor →
      ∃ e, applyPayoutPolicy r priors policy = .error e ∧ PruningRefusal reward e := by
    intro hnot
    rcases hanswers with ⟨hpay, -⟩ | ⟨-, e, he, href⟩
    · exact absurd hpay hnot
    · exact ⟨e, by rw [h.unfold_policy hfee hamount hopened, he, error_bind], href⟩
  refine ⟨opened, hopened, ⟨fun ⟨m, hm⟩ => ?_, hok⟩, herror, fun hprior => ?_⟩
  · by_contra hnot
    obtain ⟨e, he, -⟩ := herror hnot
    exact nomatch hm.symm.trans he
  · exact hok ((openAccounts_eq_ok hopened).payable hprior hreward)

end Answers

/-- Two blocks with a pool fee that the pruning loop refuses: one where pruning two
small balances leaves the reward uncovered, one where it leaves nobody. -/
theorem applyPayoutPolicy_refuses :
    (FeeConfigured (smallReward 100 [smallMiner "a1" 92, smallMiner "b2" 4, smallMiner "c3" 4])
        [smallPrior "b2" 6, smallPrior "c3" 6] (smallPolicy 10 0) ⟨⟨"pool", "pool", "f0"⟩, 0⟩ 10 100 ∧
      applyPayoutPolicy (smallReward 100 [smallMiner "a1" 92, smallMiner "b2" 4, smallMiner "c3" 4])
        [smallPrior "b2" 6, smallPrior "c3" 6] (smallPolicy 10 0) =
          .error (.payoutExceedsCandidateBalance 100 92)) ∧
    (FeeConfigured (smallReward 15 [smallMiner "a1" 1, smallMiner "b2" 1])
        [smallPrior "a1" 2, smallPrior "b2" 3] (smallPolicy 10 0) ⟨⟨"pool", "pool", "f0"⟩, 0⟩ 10 15 ∧
      applyPayoutPolicy (smallReward 15 [smallMiner "a1" 1, smallMiner "b2" 1])
        [smallPrior "a1" 2, smallPrior "b2" 3] (smallPolicy 10 0) = .error .noOnchainRecipients) := by
  refine ⟨⟨⟨rfl, ?_, ?_, ?_, ?_, ?_, ?_, ?_, ?_⟩, ?_⟩, ⟨rfl, ?_, ?_, ?_, ?_, ?_, ?_, ?_, ?_⟩, ?_⟩ <;>
    decide +kernel

theorem applyPayoutPolicy_answers_carry_free : ∃ m,
    applyPayoutPolicy (smallReward 100 [smallMiner "a1" 92, smallMiner "b2" 4, smallMiner "c3" 4]) []
      (smallPolicy 10 0) = .ok m := by
  have hconfigured : FeeConfigured
      (smallReward 100 [smallMiner "a1" 92, smallMiner "b2" 4, smallMiner "c3" 4]) [] (smallPolicy 10 0)
      ⟨⟨"pool", "pool", "f0"⟩, 0⟩ 10 100 := by
    refine ⟨rfl, ?_, ?_, ?_, ?_, ?_, ?_, ?_, ?_⟩ <;> decide +kernel
  obtain ⟨-, -, -, -, hfree⟩ := applyPayoutPolicy_answers hconfigured (.carryFree (by decide +kernel))
  exact hfree fun k => le_refl 0

end QbitPrism
