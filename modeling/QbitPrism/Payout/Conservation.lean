import Mathlib
import QbitPrism.Payout.Accounts

/-!
# Conservation

Every sat of a block's coinbase is paid on chain, and the miners together carry
forward exactly what they carried before plus the dust the pool fee was paid for
them.
-/
namespace QbitPrism
open MachineInt Checked MergeByKey SortBy LargestRemainder

namespace PayoutPolicyManifest

def minerAccounts (m : PayoutPolicyManifest) : List PayoutPolicyAccount :=
  m.accounts.filter fun a => a.accountType = .miner

def earnedFee (m : PayoutPolicyManifest) : ℕ := m.poolFee.elim 0 fun fee => fee.earnedPoolFeeSats.val

def sweptDust (m : PayoutPolicyManifest) : ℕ := m.poolFee.elim 0 fun fee => fee.sweptDustLiabilitySats.val

end PayoutPolicyManifest

structure PoolFeeManifest.Unswept (fee : PoolFeeManifest) : Prop where
  swept : fee.sweptDustLiabilitySats = 0
  amount : fee.amountSats = fee.earnedPoolFeeSats

variable {policy : PayoutPolicy} {fee : Option PoolFeeManifest}

theorem poolFeeManifest_eq_ok {coinbase : U64} (h : poolFeeManifest coinbase policy = .ok fee) :
    ∀ f ∈ fee, f.Unswept := by
  intro f hf
  unfold poolFeeManifest at h
  cases hp : policy.poolFeePolicy with
  | none =>
    rw [hp] at h
    cases h
    exact nomatch hf
  | some p =>
    simp only [hp, bind_eq_ok, pure_eq_ok] at h
    obtain ⟨-, -, product, -, amount, -, rfl⟩ := h
    cases hf
    exact ⟨rfl, rfl⟩

theorem Swept.amount_eq {fee' : Option PoolFeeManifest} {dust : ℕ} (h : Swept fee fee' dust)
    (hfee : ∀ f ∈ fee, f.Unswept) :
    fee'.elim 0 (fun f => f.earnedPoolFeeSats.val) = fee.elim 0 (fun f => f.amountSats.val) ∧
      fee'.elim 0 (fun f => f.sweptDustLiabilitySats.val) = dust ∧
      fee'.elim 0 (fun f => f.amountSats.val) = fee.elim 0 (fun f => f.amountSats.val) + dust := by
  cases h with
  | nothing =>
    cases fee with
    | none => exact ⟨rfl, rfl, rfl⟩
    | some f =>
      have hf := hfee f rfl
      simp [hf.swept, hf.amount]
  | @dust f f' n identity earned swept amount =>
    have hf := hfee f rfl
    rw [hf.swept, Unsigned.val_zero, Nat.zero_add] at swept
    simp only [Option.elim_some, earned, hf.amount, swept, true_and]
    omega

theorem pushPoolFeeAccount_eq_ok {seen : List String} {settled accounts : List PayoutPolicyAccount}
    (h : pushPoolFeeAccount fee seen settled = .ok accounts) :
    accounts = settled ++ fee.toList.map poolFeeAccount ∧ ∀ f ∈ fee, f.programKey ∉ seen := by
  cases fee with
  | none =>
    cases h
    simp
  | some f =>
    simp only [pushPoolFeeAccount, bind_eq_ok, require_eq_ok, pure_eq_ok] at h
    obtain ⟨-, hnew, rfl⟩ := h
    exact ⟨rfl, fun g hg => Option.some.inj hg ▸ hnew⟩

theorem onchainSum_eq_ok {entitlements : List WeightedEntitlement} {sum : U64}
    (h : onchainSum entitlements = .ok sum) :
    sum.val = (entitlements.map fun e => e.weight.val).sum := by
  refine foldlM_ok_induction
    (fun done (acc : U64) => acc.val = (done.map fun e : WeightedEntitlement => e.weight.val).sum)
    (by simp) ?_ h
  intro done e acc acc' ih hstep
  simp only [bind_eq_ok, okOr_eq_ok, Unsigned.ofNat?_eq_some, Unsigned.checkedAdd_eq_some] at hstep
  obtain ⟨w, hw, hacc'⟩ := hstep
  simp only [List.map_append, List.sum_append, List.map_cons, List.map_nil, List.sum_cons, List.sum_nil]
  omega

theorem onchainEntitlements_sum (accounts : List PayoutPolicyAccount) :
    ((onchainEntitlements accounts).map fun e => e.weight.val).sum =
      (accounts.map fun a => a.onchainAmountSats.val).sum := by
  induction accounts with
  | nil => rfl
  | cons a rest ih =>
    rw [List.map_cons, List.sum_cons, ← ih]
    by_cases ha : 0 < a.onchainAmountSats.val
    · simp [onchainEntitlements, ha, PayoutPolicyAccount.entitlement]
    · simp [onchainEntitlements, Nat.eq_zero_of_not_pos ha]

structure PolicyRun (r : PrismRewardManifest) (priors : List CarryForwardBalance) (policy : PayoutPolicy)
    (m : PayoutPolicyManifest) where
  floor : U64
  fee : Option PoolFeeManifest
  reward : U64
  opened : OpenedAccounts
  plan : OnchainPlan
  settled : List PayoutPolicyAccount
  fee_unswept : ∀ f ∈ fee, f.Unswept
  coinbase : r.coinbaseValueSats.val = fee.elim 0 (fun f => f.amountSats.val) + reward.val
  opened_ok : Opened r.entitlements priors reward.val opened
  planned : Planned opened.accounts fee reward.val floor.val plan
  settled_ok : Settled opened.accounts plan.amounts settled
  fee_new : ∀ f ∈ plan.poolFee, f.programKey ∉ opened.seenAccounts
  accounts_eq : m.accounts =
    sortBy PayoutPolicyAccount.cmp (settled ++ plan.poolFee.toList.map poolFeeAccount)
  entitlements_eq : m.onchainEntitlements =
    onchainEntitlements (settled ++ plan.poolFee.toList.map poolFeeAccount)
  coinbase_eq : m.coinbaseValueSats = r.coinbaseValueSats
  floor_eq : m.minOutputSats = floor
  poolFee_eq : m.poolFee = plan.poolFee

variable {priors : List CarryForwardBalance}

theorem Opened.identities_nodup {es : List WeightedEntitlement} {reward : ℕ} {o : OpenedAccounts}
    (h : Opened es priors reward o) : (o.accounts.map (·.toPayoutIdentity)).Nodup := by
  have := h.nodup
  rw [show (fun a : PayoutPolicyAccount => a.programKey) =
    PayoutIdentity.programKey ∘ (·.toPayoutIdentity) from rfl, ← List.map_map] at this
  exact List.Nodup.of_map _ this

theorem optionMap_getD_val (fee : Option PoolFeeManifest) :
    ((fee.map PoolFeeManifest.amountSats).getD 0).val = fee.elim 0 fun f => f.amountSats.val := by
  cases fee with
  | none => exact Unsigned.val_zero
  | some f => rfl

theorem applyPayoutPolicy_eq_ok {r : PrismRewardManifest} {m : PayoutPolicyManifest}
    (h : applyPayoutPolicy r priors policy = .ok m) : Nonempty (PolicyRun r priors policy m) := by
  simp only [applyPayoutPolicy, bind_eq_ok, okOr_eq_ok, require_eq_ok, pure_eq_ok,
    Unsigned.checkedSub_eq_some, exists_and_left, exists_const] at h
  obtain ⟨floor, -, fee, hfee, -, reward, hreward, -, opened, hopened, plan, hplan, settled, hsettled,
    accounts, haccounts, sum, -, -, rfl⟩ := h
  have hopen := openAccounts_eq_ok hopened
  have hplanned := planOnchain_eq_ok hopen.identities_nodup hplan
  obtain ⟨settled', hsettled', hspec⟩ := settle_plan r.coinbaseValueSats hopen.isOpen
    hopen.identities_nodup hplanned
  cases hsettled.symm.trans hsettled'
  obtain ⟨rfl, hnew⟩ := pushPoolFeeAccount_eq_ok haccounts
  exact ⟨⟨floor, fee, reward, opened, plan, settled, poolFeeManifest_eq_ok hfee,
    optionMap_getD_val fee ▸ hreward, hopen, hplanned, hspec, hnew, rfl, rfl, rfl, rfl, rfl⟩⟩

namespace PolicyRun
variable {r : PrismRewardManifest} {priors : List CarryForwardBalance} {policy : PayoutPolicy}
  {m : PayoutPolicyManifest} (run : PolicyRun r priors policy m)
include run

variable {a : PayoutPolicyAccount}

theorem settled_of_opened {P : PayoutPolicyAccount → Prop} (hP : ∀ a, P a.unpaid → P a)
    (h : ∀ a ∈ run.opened.accounts, P a) (ha : a ∈ run.settled) : P a :=
  hP a (h _ (run.settled_ok.unpaid ▸ List.mem_map_of_mem ha))

theorem settled_map {β : Type} {f : PayoutPolicyAccount → β} (hf : ∀ a, f a.unpaid = f a) :
    run.settled.map f = run.opened.accounts.map f := by
  rw [← run.settled_ok.unpaid, List.map_map]
  exact List.map_congr_left fun a _ => (hf a).symm

theorem settled_miner (ha : a ∈ run.settled) : a.accountType = .miner :=
  run.settled_of_opened (fun _ => id) (fun a ha => (run.opened_ok.isOpen a ha).miner) ha

theorem minerAccounts_perm : m.minerAccounts.Perm run.settled := by
  have hperm := (sortBy_perm PayoutPolicyAccount.cmp
    (run.settled ++ run.plan.poolFee.toList.map poolFeeAccount)).filter fun a => a.accountType = .miner
  have hfee : (run.plan.poolFee.toList.map poolFeeAccount).filter (fun a => a.accountType = .miner) = [] := by
    simp only [List.filter_eq_nil_iff, List.mem_map]
    rintro a ⟨f, -, rfl⟩
    simp [poolFeeAccount]
  have hmine : run.settled.filter (fun a => a.accountType = .miner) = run.settled :=
    List.filter_eq_self.mpr fun a ha => by simp [run.settled_miner ha]
  rw [← run.accounts_eq, List.filter_append, hfee, hmine, List.append_nil] at hperm
  exact hperm

theorem paid_sum : (run.settled.map fun a => a.onchainAmountSats.val).sum =
    (run.plan.amounts.map fun x => x.2.val).sum := by
  have hnd : (run.settled.map (·.toPayoutIdentity)).Nodup := by
    rw [run.settled_ok.identities]
    exact run.opened_ok.identities_nodup
  rw [← sum_fibers hnd (fun x : WeightedEntitlement × U64 => x.1.toPayoutIdentity), List.map_map]
  · exact congrArg List.sum (List.map_congr_left run.settled_ok.onchain)
  · intro x hx
    obtain ⟨-, a, ha, hai, -⟩ := run.planned.payable x hx
    rw [run.settled_ok.identities]
    exact hai ▸ List.mem_map_of_mem ha

theorem coinbase_split : (run.settled.map fun a => a.onchainAmountSats.val).sum +
    run.plan.poolFee.elim 0 (fun f => f.amountSats.val) = r.coinbaseValueSats.val := by
  obtain ⟨dust, hsum, hswept⟩ := run.planned.swept
  obtain ⟨-, -, hamount⟩ := hswept.amount_eq run.fee_unswept
  have := run.coinbase
  rw [run.paid_sum, hamount]
  omega

theorem onchain_total : (m.accounts.map fun a => a.onchainAmountSats.val).sum = r.coinbaseValueSats.val := by
  rw [run.accounts_eq, sum_map_sortBy, List.map_append, List.sum_append, ← run.coinbase_split]
  cases run.plan.poolFee <;> simp [poolFeeAccount]

theorem entitlements_perm : m.onchainEntitlements.Perm
    ((m.accounts.filter fun a => 0 < a.onchainAmountSats.val).map (·.entitlement)) := by
  rw [run.accounts_eq, run.entitlements_eq, onchainEntitlements]
  exact (((sortBy_perm PayoutPolicyAccount.cmp _).filter _).map _).symm

theorem gross_total : (m.minerAccounts.map fun a => a.grossAmountSats.val).sum + m.earnedFee =
    r.coinbaseValueSats.val := by
  obtain ⟨dust, -, hswept⟩ := run.planned.swept
  obtain ⟨hearned, -, -⟩ := hswept.amount_eq run.fee_unswept
  rw [(run.minerAccounts_perm.map _).sum_eq, run.settled_map (fun _ => rfl), run.opened_ok.gross,
    PayoutPolicyManifest.earnedFee, run.poolFee_eq, hearned, run.coinbase]
  omega

theorem swept_eq : m.sweptDust + (run.plan.amounts.map fun x => x.2.val).sum = run.reward.val := by
  obtain ⟨dust, hsum, hswept⟩ := run.planned.swept
  obtain ⟨-, hdust, -⟩ := hswept.amount_eq run.fee_unswept
  rw [PayoutPolicyManifest.sweptDust, run.poolFee_eq, hdust]
  omega

theorem programs_nodup : (m.minerAccounts.map (·.programKey)).Nodup := by
  rw [(run.minerAccounts_perm.map _).nodup_iff, run.settled_map fun _ => rfl]
  exact run.opened_ok.nodup

theorem all_programs_nodup : (m.accounts.map (·.programKey)).Nodup := by
  rw [run.accounts_eq, ((sortBy_perm PayoutPolicyAccount.cmp _).map _).nodup_iff, List.map_append, List.nodup_append]
  refine ⟨?_, ?_, ?_⟩
  · rw [run.settled_map fun _ => rfl]
    exact run.opened_ok.nodup
  · cases run.plan.poolFee <;> simp
  · rintro k hk k' hk' rfl
    obtain ⟨a, ha, rfl⟩ := List.mem_map.mp hk'
    obtain ⟨f, hf, rfl⟩ := List.mem_map.mp ha
    rw [run.settled_map fun _ => rfl, ← run.opened_ok.seen] at hk
    exact run.fee_new f (Option.mem_toList.mp hf) hk

theorem mem_programs (k : String) : k ∈ m.minerAccounts.map (·.programKey) ↔
    (∃ e ∈ r.entitlements, e.programKey = k) ∨ ∃ b ∈ priors, b.programKey = k := by
  rw [(run.minerAccounts_perm.map _).mem_iff, run.settled_map fun _ => rfl]
  exact run.opened_ok.programs k

theorem prior_eq (ha : a ∈ m.minerAccounts) :
    a.priorBalanceSats.val = programBalance priors a.programKey :=
  run.settled_of_opened (fun _ => id) run.opened_ok.prior (run.minerAccounts_perm.mem_iff.mp ha)

theorem candidate_eq (ha : a ∈ m.minerAccounts) :
    a.candidateBalanceSats.val = a.priorBalanceSats.val + a.grossAmountSats.val :=
  run.settled_of_opened (fun _ => id) (fun a ha => (run.opened_ok.isOpen a ha).candidate)
    (run.minerAccounts_perm.mem_iff.mp ha)

theorem carry_eq (ha : a ∈ m.minerAccounts) :
    a.carryForwardBalanceSats.val = a.candidateBalanceSats.val - a.onchainAmountSats.val :=
  run.settled_ok.carry a (run.minerAccounts_perm.mem_iff.mp ha)

theorem prior_total : (m.minerAccounts.map fun a => a.priorBalanceSats.val).sum =
    (priors.map fun b => b.balanceSats.val).sum := by
  rw [← sum_fibers run.programs_nodup (fun b : CarryForwardBalance => b.programKey)
    (fun b => b.balanceSats.val), List.map_map]
  · exact congrArg List.sum (List.map_congr_left fun a ha => run.prior_eq ha)
  · intro b hb
    rw [run.mem_programs]
    exact .inr ⟨b, hb, rfl⟩

theorem onchain_range (ha : a ∈ m.minerAccounts) :
    a.onchainAmountSats.val = 0 ∨ (m.minOutputSats.val ≤ a.onchainAmountSats.val ∧
      (a.onchainAmountSats.val : ℤ) ≤ a.candidateBalanceSats.val) := by
  have ha := run.minerAccounts_perm.mem_iff.mp ha
  by_cases hpaid : ∃ x ∈ run.plan.amounts, x.1.toPayoutIdentity = a.toPayoutIdentity
  · obtain ⟨x, hx, hxa⟩ := hpaid
    obtain ⟨hfloor, b, hb, hbx, hle⟩ := run.planned.payable x hx
    have hamount : a.onchainAmountSats.val = x.2.val := by
      rw [run.settled_ok.onchain a ha, ← hxa]
      exact amountFor_of_mem run.planned.nodup hx
    have hopened : a.unpaid ∈ run.opened.accounts := run.settled_ok.unpaid ▸ List.mem_map_of_mem ha
    have hsame : a.unpaid = b :=
      List.inj_on_of_nodup_map run.opened_ok.identities_nodup hopened hb (hxa.symm.trans hbx.symm)
    rw [← hsame] at hle
    rw [hamount, run.floor_eq]
    exact .inr ⟨hfloor, hle⟩
  · left
    rw [run.settled_ok.onchain a ha]
    exact amountFor_of_not_mem fun x hx heq => hpaid ⟨x, hx, heq⟩

theorem carry_total : (m.minerAccounts.map fun a => a.carryForwardBalanceSats.val).sum =
    (priors.map fun b => b.balanceSats.val).sum + m.sweptDust := by
  have heach : (m.minerAccounts.map fun a =>
        a.carryForwardBalanceSats.val + (a.onchainAmountSats.val : ℤ)) =
      m.minerAccounts.map fun a => a.priorBalanceSats.val + (a.grossAmountSats.val : ℤ) :=
    List.map_congr_left fun a ha => by rw [run.carry_eq ha, run.candidate_eq ha, sub_add_cancel]
  have hgross : (m.minerAccounts.map fun a => (a.grossAmountSats.val : ℤ)).sum = run.reward.val := by
    have hsum := run.opened_ok.gross
    rw [← run.settled_map (fun _ => rfl), ← (run.minerAccounts_perm.map _).sum_eq] at hsum
    rw [← hsum, Nat.cast_list_sum, List.map_map]
    rfl
  have hpaid : (m.minerAccounts.map fun a => (a.onchainAmountSats.val : ℤ)).sum =
      ((run.plan.amounts.map fun x => x.2.val).sum : ℕ) := by
    rw [← run.paid_sum, ← (run.minerAccounts_perm.map _).sum_eq, Nat.cast_list_sum, List.map_map]
    rfl
  have hswept := run.swept_eq
  have hsum := congrArg List.sum heach
  rw [List.sum_map_add, List.sum_map_add, run.prior_total, hgross, hpaid] at hsum
  omega

end PolicyRun

theorem PolicyRun.one_account {r : PrismRewardManifest} {m : PayoutPolicyManifest} (run : PolicyRun r priors policy m)
    {k : String} (hk : (∃ e ∈ r.entitlements, e.programKey = k) ∨ ∃ b ∈ priors, b.programKey = k) :
    (m.minerAccounts.filter fun a => a.programKey = k).length = 1 := by
  have hcount := List.count_eq_one_of_mem run.programs_nodup ((run.mem_programs k).mpr hk)
  rw [List.count_eq_length_filter, List.filter_map, List.length_map] at hcount
  simpa only [Function.comp_def, beq_eq_decide] using hcount

/-- Payout conservation: the coinbase is paid out exactly and in the committed
entitlements, the miners carry the priors and the swept dust, and each of them is
settled within its own balance. -/
theorem applyPayoutPolicy_conserves {r : PrismRewardManifest} {priors : List CarryForwardBalance}
    {policy : PayoutPolicy} {m : PayoutPolicyManifest} (h : applyPayoutPolicy r priors policy = .ok m) :
    ((m.accounts.map fun a => a.onchainAmountSats.val).sum = r.coinbaseValueSats.val ∧
      m.onchainEntitlements.Perm
        ((m.accounts.filter fun a => 0 < a.onchainAmountSats.val).map (·.entitlement))) ∧
    ((m.minerAccounts.map fun a => a.carryForwardBalanceSats.val).sum =
      (priors.map fun b => b.balanceSats.val).sum + m.sweptDust) ∧
    (∀ a ∈ m.minerAccounts,
      a.candidateBalanceSats.val = a.priorBalanceSats.val + a.grossAmountSats.val ∧
      a.carryForwardBalanceSats.val = a.candidateBalanceSats.val - a.onchainAmountSats.val ∧
      (a.onchainAmountSats.val = 0 ∨ (m.minOutputSats.val ≤ a.onchainAmountSats.val ∧
        (a.onchainAmountSats.val : ℤ) ≤ a.candidateBalanceSats.val))) ∧
    ((∀ e ∈ r.entitlements, (m.minerAccounts.filter fun a => a.programKey = e.programKey).length = 1) ∧
      (∀ b ∈ priors, (m.minerAccounts.filter fun a => a.programKey = b.programKey).length = 1) ∧
      (m.minerAccounts.map fun a => a.grossAmountSats.val).sum + m.earnedFee = r.coinbaseValueSats.val) := by
  obtain ⟨run⟩ := applyPayoutPolicy_eq_ok h
  refine ⟨⟨run.onchain_total, run.entitlements_perm⟩, run.carry_total, fun a ha => ?_, ?_, ?_, run.gross_total⟩
  · exact ⟨run.candidate_eq ha, run.carry_eq ha, run.onchain_range ha⟩
  · exact fun e he => run.one_account (.inl ⟨e, he, rfl⟩)
  · exact fun b hb => run.one_account (.inr ⟨b, hb, rfl⟩)

/-- A reward manifest with these entitlements; the window fields do not enter the policy. -/
def smallReward (coinbaseValueSats : U64) (entitlements : List WeightedEntitlement) : PrismRewardManifest where
  schema := "qbit.prism.reward-manifest.v1"
  blockHeight := 1
  coinbaseValueSats := coinbaseValueSats
  networkDifficulty := 1
  windowMultiplier := 8
  requestedWindowWeight := 8
  countedWindowWeight := 8
  anchorJobIssuedAtMs := 1
  anchorShareSeq := 1
  newestShareSeq := 1
  oldestShareSeq := 1
  cut := none
  includedShareCount := 1
  shareSliceDigestHex := ""
  shares := []
  entitlements := entitlements

def smallMiner (name : String) (weight : U128) : WeightedEntitlement := ⟨⟨name, name, name⟩, weight⟩

def smallPrior (name : String) (balanceSats : I128) : CarryForwardBalance := ⟨⟨name, name, name⟩, balanceSats⟩

/-- A fixed floor and a pool fee of `feeBps`. -/
def smallPolicy (floor : U64) (feeBps : U16) : PayoutPolicy where
  p2mrSpendInputBytes := 3680
  targetFeerateSatsPerByte := 1
  safetyMultiplier := 4
  minOutputSats? := some floor
  poolFeePolicy := some ⟨⟨"pool", "pool", "f0"⟩, feeBps⟩
  coinbaseOutputPolicy := .canonical

theorem applyPayoutPolicy_conserves_small : ∃ m,
    applyPayoutPolicy (smallReward 1000 [smallMiner "a1" 5, smallMiner "A1" 3, smallMiner "b2" 1])
      [smallPrior "a1" 40, smallPrior "c3" 7] (smallPolicy 200 100) = .ok m ∧
    (m.accounts.map fun a => a.onchainAmountSats.val).sum = 1000 ∧
    (m.minerAccounts.map fun a => a.carryForwardBalanceSats.val).sum = 47 + m.sweptDust := by
  obtain ⟨m, hm⟩ := exists_of_isOk (x := applyPayoutPolicy
    (smallReward 1000 [smallMiner "a1" 5, smallMiner "A1" 3, smallMiner "b2" 1])
    [smallPrior "a1" 40, smallPrior "c3" 7] (smallPolicy 200 100)) (by decide +kernel)
  exact ⟨m, hm, (applyPayoutPolicy_conserves hm).1.1, (applyPayoutPolicy_conserves hm).2.1⟩

end QbitPrism
