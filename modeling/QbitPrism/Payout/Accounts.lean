import Mathlib
import QbitPrism.Payout.Policy

/-!
# What the stages of the policy establish

One specification per stage of `apply_payout_policy`: opening the accounts,
choosing who is paid, and settling. Later results cite these and do not unfold
the stages.
-/
namespace QbitPrism
open MachineInt Checked MergeByKey SortBy LargestRemainder List

structure PayoutPolicyAccount.IsOpen (a : PayoutPolicyAccount) : Prop where
  miner : a.accountType = .miner
  candidate : a.candidateBalanceSats.val = a.priorBalanceSats.val + a.grossAmountSats.val
  onchain : a.onchainAmountSats = 0
  fee : a.settlementFeeSats = 0
  carry : a.carryForwardBalanceSats = a.candidateBalanceSats
  accrued : a.action = .accrued

variable {a : PayoutPolicyAccount}

variable {seed s : PolicyAccountSeed} {x : WeightedEntitlement × U64} {fee : Option PoolFeeManifest}
  {accounts' settled : List PayoutPolicyAccount}

theorem openAccount_eq_ok (h : openAccount seed = .ok a) :
    a.IsOpen ∧ a.toPayoutIdentity = seed.toPayoutIdentity ∧
      a.grossAmountSats = seed.grossAmountSats ∧ a.priorBalanceSats = seed.priorBalanceSats := by
  simp only [openAccount, bind_eq_ok, okOr_eq_ok, pure_eq_ok, Signed.checkedAdd_eq_some, U64.toI128_val] at h
  obtain ⟨candidate, hc, rfl⟩ := h
  exact ⟨⟨rfl, hc, rfl, rfl, rfl, rfl⟩, rfl, rfl, rfl⟩

theorem openAccount_isOk (h : FitsI128 (seed.priorBalanceSats.val + seed.grossAmountSats.val)) :
    ∃ a, openAccount seed = .ok a := by
  obtain ⟨c, hc⟩ := h.exists_val
  have hadd : seed.priorBalanceSats.checkedAdd (U64.toI128 seed.grossAmountSats) = some c :=
    Signed.checkedAdd_eq_some.mpr hc
  exact ⟨_, by simp only [openAccount, hadd, okOr_some, ok_bind]; rfl⟩

theorem pushPriorSeeds_mem {balances : List CarryForwardBalance} {seen : List String}
    (h : s ∈ (pushPriorSeeds balances seen).1) : ∃ b ∈ balances, s = priorSeed b := by
  induction balances generalizing seen with
  | nil => exact absurd h not_mem_nil
  | cons b rest ih =>
    rw [pushPriorSeeds] at h
    split_ifs at h
    · obtain ⟨x, hx, rfl⟩ := ih h
      exact ⟨x, mem_cons_of_mem _ hx, rfl⟩
    · rcases mem_cons.mp h with rfl | h
      · exact ⟨b, mem_cons_self, rfl⟩
      · obtain ⟨x, hx, rfl⟩ := ih h
        exact ⟨x, mem_cons_of_mem _ hx, rfl⟩

theorem pushPriorSeeds_programs (balances : List CarryForwardBalance) (seen : List String) :
    ((pushPriorSeeds balances seen).1.map (·.programKey)).Nodup ∧
      (∀ k, k ∈ (pushPriorSeeds balances seen).1.map (·.programKey) ↔
        k ∉ seen ∧ ∃ b ∈ balances, b.programKey = k) ∧
      ∀ k, k ∈ (pushPriorSeeds balances seen).2 ↔ k ∈ seen ∨ ∃ b ∈ balances, b.programKey = k := by
  induction balances generalizing seen with
  | nil => simp [pushPriorSeeds]
  | cons b rest ih =>
    rw [pushPriorSeeds]
    split_ifs with hb
    · obtain ⟨hnd, hkeys, hseen⟩ := ih seen
      refine ⟨hnd, fun k => ?_, fun k => ?_⟩
      · rw [hkeys]
        simp only [mem_cons, or_and_right, exists_or, exists_eq_left]
        constructor
        · rintro ⟨hk, hx⟩
          exact ⟨hk, .inr hx⟩
        · rintro ⟨hk, rfl | hx⟩
          · exact absurd hb hk
          · exact ⟨hk, hx⟩
      · rw [hseen]
        simp only [mem_cons, or_and_right, exists_or, exists_eq_left]
        constructor
        · rintro (hk | hx)
          · exact .inl hk
          · exact .inr (.inr hx)
        · rintro (hk | rfl | hx)
          · exact .inl hk
          · exact .inl hb
          · exact .inr hx
    · obtain ⟨hnd, hkeys, hseen⟩ := ih (b.programKey :: seen)
      have hhead : (priorSeed b).programKey = b.programKey := rfl
      refine ⟨?_, fun k => ?_, fun k => ?_⟩
      · rw [map_cons, nodup_cons, hkeys, hhead]
        exact ⟨fun h => h.1 mem_cons_self, hnd⟩
      · rw [map_cons, mem_cons, hkeys, hhead]
        simp only [mem_cons, not_or, or_and_right, exists_or, exists_eq_left]
        constructor
        · rintro (rfl | ⟨⟨-, hk⟩, hx⟩)
          · exact ⟨hb, .inl rfl⟩
          · exact ⟨hk, .inr hx⟩
        · rintro ⟨hk, heq | hx⟩
          · exact .inl heq.symm
          · by_cases heq : k = b.programKey
            · exact .inl heq
            · exact .inr ⟨⟨heq, hk⟩, hx⟩
      · rw [hseen]
        simp only [mem_cons, or_and_right, exists_or, exists_eq_left]
        constructor
        · rintro ((rfl | hk) | hx)
          · exact .inr (.inl rfl)
          · exact .inl hk
          · exact .inr (.inr hx)
        · rintro (hk | rfl | hx)
          · exact .inl (.inr hk)
          · exact .inl (.inl rfl)
          · exact .inr hx

/-- The opened accounts of a block: one per program, with the whole reward as gross
amounts and each program's merged prior balance. -/
structure Opened (entitlements : List WeightedEntitlement) (priors : List CarryForwardBalance)
    (reward : ℕ) (opened : OpenedAccounts) : Prop where
  isOpen : ∀ a ∈ opened.accounts, a.IsOpen
  nodup : (opened.accounts.map (·.programKey)).Nodup
  seen : ∀ k, k ∈ opened.seenAccounts ↔ k ∈ opened.accounts.map (·.programKey)
  programs : ∀ k, k ∈ opened.accounts.map (·.programKey) ↔
    (∃ e ∈ entitlements, e.programKey = k) ∨ ∃ b ∈ priors, b.programKey = k
  prior : ∀ a ∈ opened.accounts, a.priorBalanceSats.val = programBalance priors a.programKey
  gross : (opened.accounts.map fun a => a.grossAmountSats.val).sum = reward
  quota : ∀ a ∈ opened.accounts, IsQuota reward (entitlements.map fun e => e.weight.val).sum
    (programWeight entitlements a.programKey) a.grossAmountSats.val

theorem entitlementSeed_prior {priors : List CarryForwardBalance} {m : Std.TreeMap String CarryForwardBalance}
    (hm : MergedBalances priors m) (x : WeightedEntitlement × U64) :
    (entitlementSeed m x).priorBalanceSats.val = programBalance priors x.1.programKey := by
  rw [← hm.balance]
  simp only [entitlementSeed]
  cases m[x.1.programKey]? with
  | none => exact Signed.val_zero
  | some b => rfl

theorem programWeight_eq_zero {es : List WeightedEntitlement} {k : String}
    (h : ∀ e ∈ es, e.programKey ≠ k) : programWeight es k = 0 := by
  rw [programWeight, filter_eq_nil_iff.mpr (by simpa using h)]
  rfl

section OpenAccounts
variable {entitlements merged : List WeightedEntitlement} {priors : List CarryForwardBalance}
  {reward : ℕ} {amounts : List (WeightedEntitlement × U64)}
  {m : Std.TreeMap String CarryForwardBalance}

section
variable (h : Allocated reward merged amounts)
include h

theorem Allocated.programs (k : String) :
    k ∈ amounts.map (fun x => x.1.programKey) ↔ k ∈ merged.map (·.programKey) := by
  have hmap : amounts.map (fun x => x.1.programKey) =
      (sortBy WeightedEntitlement.cmp merged).map (·.programKey) := by
    rw [← h.entries, map_map]
    rfl
  rw [hmap]
  exact ((sortBy_perm _ _).map _).mem_iff

theorem Allocated.programs_nodup
    (hnd : (merged.map (·.programKey)).Nodup) : (amounts.map fun x => x.1.programKey).Nodup := by
  have hmap : amounts.map (fun x => x.1.programKey) =
      (sortBy WeightedEntitlement.cmp merged).map (·.programKey) := by
    rw [← h.entries, map_map]
    rfl
  rw [hmap]
  exact ((sortBy_perm _ _).map _).nodup_iff.mpr hnd

theorem Allocated.mem_entries (hx : x ∈ amounts) : x.1 ∈ merged := by
  have : x.1 ∈ amounts.map Prod.fst := mem_map_of_mem hx
  rw [h.entries] at this
  exact (mem_sortBy _).mp this

theorem Allocated.program_quota (hagg : Aggregated entitlements merged) (hx : x ∈ amounts) :
    IsQuota reward (entitlements.map fun e => e.weight.val).sum
      (programWeight entitlements x.1.programKey) x.2.val := by
  rw [← hagg.total, ← hagg.weight x.1 (h.mem_entries hx)]
  exact h.quota x hx

end

def accountSeeds (m : Std.TreeMap String CarryForwardBalance)
    (amounts : List (WeightedEntitlement × U64)) : List PolicyAccountSeed :=
  amounts.map (entitlementSeed m) ++
    (pushPriorSeeds (values m) (amounts.map fun x => x.1.programKey)).1

theorem accountSeeds_programs :
    (accountSeeds m amounts).map (·.programKey) = amounts.map (fun x => x.1.programKey) ++
      (pushPriorSeeds (values m) (amounts.map fun x => x.1.programKey)).1.map (·.programKey) := by
  rw [accountSeeds, map_append, map_map]
  rfl

theorem accountSeeds_nodup (hnd : (amounts.map fun x => x.1.programKey).Nodup) :
    ((accountSeeds m amounts).map (·.programKey)).Nodup := by
  obtain ⟨hpush, hkeys, -⟩ := pushPriorSeeds_programs (values m) (amounts.map fun x => x.1.programKey)
  rw [accountSeeds_programs, nodup_append]
  refine ⟨hnd, hpush, ?_⟩
  rintro k hk _ hk' rfl
  exact ((hkeys k).mp hk').1 hk

theorem mem_values_programs (hm : MergedBalances priors m) (k : String) :
    (∃ b ∈ values m, b.programKey = k) ↔ ∃ b ∈ priors, b.programKey = k := by
  rw [← hm.programs, Std.TreeMap.mem_iff_isSome_getElem?, Option.isSome_iff_exists]
  constructor
  · rintro ⟨b, hb, rfl⟩
    obtain ⟨k, hk⟩ := mem_values.mp hb
    exact ⟨b, (hm.programKey k b hk).symm ▸ hk⟩
  · rintro ⟨b, hb⟩
    exact ⟨b, mem_values.mpr ⟨k, hb⟩, hm.programKey k b hb⟩

theorem accountSeeds_facts (hagg : Aggregated entitlements merged) (halloc : Allocated reward merged amounts)
    (hm : MergedBalances priors m) (hs : s ∈ accountSeeds m amounts) :
    s.priorBalanceSats.val = programBalance priors s.programKey ∧
      IsQuota reward (entitlements.map fun e => e.weight.val).sum
        (programWeight entitlements s.programKey) s.grossAmountSats.val := by
  rcases mem_append.mp hs with hs | hs
  · obtain ⟨x, hx, rfl⟩ := mem_map.mp hs
    exact ⟨entitlementSeed_prior hm x, halloc.program_quota hagg hx⟩
  · obtain ⟨b, hb, rfl⟩ := pushPriorSeeds_mem hs
    obtain ⟨k, hk⟩ := mem_values.mp hb
    have hfresh := ((pushPriorSeeds_programs _ _).2.1 _).mp (mem_map_of_mem (f := (·.programKey)) hs)
    have hkey : (priorSeed b).programKey = k := hm.programKey k b hk
    refine ⟨hkey ▸ hm.getElem?_balance hk, ?_⟩
    -- A program that only carries a balance has no weight and gets no gross amount.
    have hzero : programWeight entitlements (priorSeed b).programKey = 0 := by
      refine programWeight_eq_zero fun e he hek => hfresh.1 ?_
      rw [halloc.programs, hagg.programs]
      exact ⟨e, he, hek⟩
    rw [hzero]
    exact .inl (by simp [priorSeed])

theorem accountSeeds_gross (halloc : Allocated reward merged amounts) :
    ((accountSeeds m amounts).map fun s => s.grossAmountSats.val).sum = reward := by
  have hpush : ((pushPriorSeeds (values m) (amounts.map fun x => x.1.programKey)).1.map
      fun s => s.grossAmountSats.val).sum = 0 := by
    refine sum_eq_zero fun n hn => ?_
    obtain ⟨s, hs, rfl⟩ := mem_map.mp hn
    obtain ⟨b, -, rfl⟩ := pushPriorSeeds_mem hs
    exact Unsigned.val_zero
  rw [accountSeeds, map_append, sum_append, hpush, Nat.add_zero, map_map]
  exact halloc.total_eq

end OpenAccounts

variable {reward : U64}

theorem openAccounts_eq_ok {entitlements : List WeightedEntitlement} {priors : List CarryForwardBalance}
    {opened : OpenedAccounts} (h : openAccounts entitlements priors reward = .ok opened) :
    Opened entitlements priors reward.val opened := by
  simp only [openAccounts, bind_eq_ok, pure_eq_ok] at h
  obtain ⟨merged, hmerged, amounts, hamounts, m, hm, accounts, haccounts, rfl⟩ := h
  have hagg := aggregateEntitlements_eq_ok hmerged
  have halloc := allocateWeightedAmounts_eq_ok hamounts
  have hbal : MergedBalances priors m := balanceMerger_eq_ok hm
  have hprograms : accounts.map (·.programKey) = (accountSeeds m amounts).map (·.programKey) :=
    map_eq_of_mapM_ok _ _ haccounts fun _ _ h =>
      congrArg PayoutIdentity.programKey (openAccount_eq_ok h).2.1
  have hgross : accounts.map (fun a => a.grossAmountSats.val) =
      (accountSeeds m amounts).map fun s => s.grossAmountSats.val :=
    map_eq_of_mapM_ok _ _ haccounts fun _ _ h => congrArg Unsigned.val (openAccount_eq_ok h).2.2.1
  have hpushed := pushPriorSeeds_programs (values m) (amounts.map fun x => x.1.programKey)
  have hkeys : ∀ k, k ∈ accounts.map (·.programKey) ↔
      k ∈ (amounts.map fun x => x.1.programKey) ∨ ∃ b ∈ values m, b.programKey = k := by
    intro k
    rw [hprograms, accountSeeds_programs, mem_append, hpushed.2.1]
    by_cases hk : k ∈ amounts.map fun x => x.1.programKey
    · simp only [hk, true_or]
    · simp only [hk, false_or, not_false_eq_true, true_and]
  refine ⟨?_, ?_, ?_, ?_, ?_, ?_, ?_⟩
  · intro a ha
    obtain ⟨s, -, hs⟩ := mem_of_mapM_ok haccounts ha
    exact (openAccount_eq_ok hs).1
  · rw [hprograms]
    exact accountSeeds_nodup (halloc.programs_nodup hagg.nodup)
  · intro k
    rw [hkeys, hpushed.2.2]
  · intro k
    rw [hkeys, halloc.programs, hagg.programs, mem_values_programs hbal]
  · intro a ha
    obtain ⟨s, hs, hok⟩ := mem_of_mapM_ok haccounts ha
    obtain ⟨-, hid, -, hprior⟩ := openAccount_eq_ok hok
    rw [hprior, PayoutIdentity.programKey, hid]
    exact (accountSeeds_facts hagg halloc hbal hs).1
  · rw [hgross]
    exact accountSeeds_gross halloc
  · intro a ha
    obtain ⟨s, hs, hok⟩ := mem_of_mapM_ok haccounts ha
    obtain ⟨-, hid, hg, -⟩ := openAccount_eq_ok hok
    rw [hg, PayoutIdentity.programKey, hid]
    exact (accountSeeds_facts hagg halloc hbal hs).2

variable {accounts : List PayoutPolicyAccount} {floor : U64}

theorem mem_eligible :
    a ∈ eligibleOnchainAccounts accounts floor ↔
      a ∈ accounts ∧ (floor.val : ℤ) ≤ a.candidateBalanceSats.val := by
  simp only [eligibleOnchainAccounts, mem_filter, decide_eq_true_eq]

def candidateSum (accounts : List PayoutPolicyAccount) : ℤ :=
  (accounts.map fun a => a.candidateBalanceSats.val).sum

variable {selected : List PayoutPolicyAccount}

theorem selectedCandidateBalanceSum_eq_ok {sum : U128} (h : selectedCandidateBalanceSum selected = .ok sum) :
    (sum.val : ℤ) = candidateSum selected := by
  refine foldlM_ok_induction (fun done (acc : U128) => (acc.val : ℤ) = candidateSum done)
    (by simp [candidateSum]) ?_ h
  intro done a acc acc' ih hstep
  simp only [bind_eq_ok, okOr_eq_ok, I128.toU128?_eq_some, Unsigned.checkedAdd_eq_some] at hstep
  obtain ⟨c, hc, hacc'⟩ := hstep
  simp only [candidateSum] at ih
  simp only [candidateSum, map_append, sum_append, map_cons, map_nil, sum_cons, sum_nil]
  omega

theorem candidateSum_nonneg (h : ∀ a ∈ accounts, 0 ≤ a.candidateBalanceSats.val) :
    0 ≤ candidateSum accounts := by
  refine sum_nonneg fun z hz => ?_
  obtain ⟨a, ha, rfl⟩ := mem_map.mp hz
  exact h a ha

theorem selectedCandidateBalanceSum_isOk (hnonneg : ∀ a ∈ selected, 0 ≤ a.candidateBalanceSats.val)
    (hfit : candidateSum selected < 2 ^ 128) :
    ∃ sum, selectedCandidateBalanceSum selected = .ok sum ∧ (sum.val : ℤ) = candidateSum selected := by
  obtain ⟨sum, hsum, -⟩ := foldlM_isOk
    (fun sum (account : PayoutPolicyAccount) => do
      let candidate ← okOr (I128.toU128? account.candidateBalanceSats) PrismError.payoutPolicyOverflow
      okOr (sum.checkedAdd candidate) .payoutPolicyOverflow) selected 0
    (fun done (acc : U128) => (acc.val : ℤ) = candidateSum done) (by simp [candidateSum]) (by
      rintro done a acc ⟨rest, hrest⟩ hacc
      have ha : 0 ≤ a.candidateBalanceSats.val := hnonneg a (by simp [← hrest])
      have hrest0 : 0 ≤ candidateSum rest := candidateSum_nonneg fun x hx =>
        hnonneg x (by simp [← hrest, hx])
      have hsplit : candidateSum selected = candidateSum done + a.candidateBalanceSats.val + candidateSum rest := by
        rw [← hrest]
        simp [candidateSum, add_assoc]
      have hc := I128.asU128_val ha
      have hlt : acc.val + (I128.asU128 a.candidateBalanceSats).val < 2 ^ 128 := by
        zify
        omega
      have hadd : acc.checkedAdd (I128.asU128 a.candidateBalanceSats) = some ⟨_, hlt⟩ :=
        Unsigned.checkedAdd_eq_some.mpr rfl
      refine ⟨⟨_, hlt⟩, by simp only [I128.toU128?_isSome ha, okOr_some, ok_bind, hadd], ?_⟩
      simp only [candidateSum, map_append, sum_append, map_cons, map_nil, sum_cons, sum_nil] at hacc ⊢
      push_cast
      omega)
  exact ⟨sum, hsum, selectedCandidateBalanceSum_eq_ok hsum⟩

theorem candidateWeights_sum (h : ∀ a ∈ selected, 0 ≤ a.candidateBalanceSats.val) :
    (((candidateWeights selected).map fun e => e.weight.val).sum : ℕ) = candidateSum selected := by
  rw [candidateSum, candidateWeights, map_map, Nat.cast_list_sum, map_map]
  exact congrArg List.sum (map_congr_left fun a ha => I128.asU128_val (h a ha))

/-- What the pruning loop returns: accounts it started from that together hold at
least the reward, and whose split of the reward leaves none of them under the floor. -/
structure Selected (start : List PayoutPolicyAccount) (reward floor : U64)
    (out : List PayoutPolicyAccount) : Prop where
  sublist : out.Sublist start
  covers : (reward.val : ℤ) ≤ candidateSum out
  allocates : ∃ allocations, allocateWeightedAmounts reward (candidateWeights out) = .ok allocations ∧
    ∀ x ∈ allocations, floor.val ≤ x.2.val

theorem selectLoop_eq_ok {fuel : ℕ} {start out : List PayoutPolicyAccount}
    (h : selectLoop reward floor fuel start = .ok out) : Selected start reward floor out := by
  induction fuel generalizing start with
  | zero => simp [selectLoop] at h
  | succ fuel ih =>
    simp only [selectLoop, bind_eq_ok, require_eq_ok, exists_and_left, exists_const] at h
    obtain ⟨-, sum, hsum, hcover, allocations, halloc, h⟩ := h
    split_ifs at h with hunder
    · simp only [pure_eq_ok] at h
      subst h
      have hsum := selectedCandidateBalanceSum_eq_ok hsum
      refine ⟨List.Sublist.refl _, by omega, allocations, halloc, fun x hx => ?_⟩
      by_contra hlt
      rw [underFloorKeys, map_eq_nil_iff, filter_eq_nil_iff] at hunder
      exact hunder x hx (by simpa using hlt)
    · have hrec := ih h
      exact ⟨hrec.sublist.trans filter_sublist, hrec.covers, hrec.allocates⟩

/-- The pool fee after `dust` sats were swept into it. -/
inductive Swept : Option PoolFeeManifest → Option PoolFeeManifest → ℕ → Prop
  | nothing (fee : Option PoolFeeManifest) : Swept fee fee 0
  | dust {fee fee' : PoolFeeManifest} {n : ℕ} (identity : fee'.toPayoutIdentity = fee.toPayoutIdentity)
      (earned : fee'.earnedPoolFeeSats = fee.earnedPoolFeeSats)
      (swept : fee'.sweptDustLiabilitySats.val = fee.sweptDustLiabilitySats.val + n)
      (amount : fee'.amountSats.val = fee.earnedPoolFeeSats.val + fee'.sweptDustLiabilitySats.val) :
      Swept (some fee) (some fee') n

theorem addSweptDustToPoolFee_eq_ok {fee' : Option PoolFeeManifest} {dust : U64}
    (h : addSweptDustToPoolFee fee dust = .ok fee') : Swept fee fee' dust.val := by
  unfold addSweptDustToPoolFee at h
  split_ifs at h with hzero
  · cases h
    rw [hzero, Unsigned.val_zero]
    exact .nothing fee
  · simp only [bind_eq_ok, okOr_eq_ok, pure_eq_ok, Unsigned.checkedAdd_eq_some] at h
    obtain ⟨f, rfl, swept, hswept, amount, hamount, rfl⟩ := h
    exact .dust rfl rfl hswept hamount

/-- What the on-chain plan of a block satisfies: it pays each named account once,
within its candidate balance and not under the floor, and the sats it does not pay
are swept into the pool fee. -/
structure Planned (accounts : List PayoutPolicyAccount) (poolFee : Option PoolFeeManifest)
    (reward floor : ℕ) (plan : OnchainPlan) : Prop where
  nodup : (plan.amounts.map fun x => x.1.toPayoutIdentity).Nodup
  payable : ∀ x ∈ plan.amounts, floor ≤ x.2.val ∧ ∃ a ∈ accounts,
    a.toPayoutIdentity = x.1.toPayoutIdentity ∧ (x.2.val : ℤ) ≤ a.candidateBalanceSats.val
  swept : ∃ dust, (plan.amounts.map fun x => x.2.val).sum + dust = reward ∧
    Swept poolFee plan.poolFee dust

theorem candidateAmount_eq_ok (h : candidateAmount a = .ok x) :
    x.1.toPayoutIdentity = a.toPayoutIdentity ∧ (x.2.val : ℤ) = a.candidateBalanceSats.val := by
  simp only [candidateAmount, bind_eq_ok, okOr_eq_ok, pure_eq_ok, I128.toU64?_eq_some] at h
  obtain ⟨amount, hamount, rfl⟩ := h
  exact ⟨rfl, hamount⟩

section Plan
variable {accounts : List PayoutPolicyAccount} {poolFee : Option PoolFeeManifest} {reward floor : U64}
  {plan : OnchainPlan}

theorem eligible_nonneg (h : a ∈ eligibleOnchainAccounts accounts floor) :
    0 ≤ a.candidateBalanceSats.val :=
  le_trans (Int.natCast_nonneg _) (mem_eligible.mp h).2

section
variable (hnd : (accounts.map (·.toPayoutIdentity)).Nodup)
include hnd

theorem planned_of_dust {amounts : List (WeightedEntitlement × U64)} {sum : U128} {dust : U64}
    (hsum : selectedCandidateBalanceSum (eligibleOnchainAccounts accounts floor) = .ok sum)
    (hdust : reward.val = sum.val + dust.val)
    (hamounts : (eligibleOnchainAccounts accounts floor).mapM candidateAmount = .ok amounts)
    (hfee : addSweptDustToPoolFee poolFee dust = .ok fee) :
    Planned accounts poolFee reward.val floor.val ⟨fee, amounts⟩ := by
  have hids := map_eq_of_mapM_ok (·.toPayoutIdentity) (fun x => x.1.toPayoutIdentity)
    hamounts fun _ _ h => (candidateAmount_eq_ok h).1
  have hvals := map_eq_of_mapM_ok (·.candidateBalanceSats.val) (fun x => (x.2.val : ℤ))
    hamounts fun _ _ h => (candidateAmount_eq_ok h).2
  refine ⟨?_, fun x hx => ?_, dust.val, ?_, addSweptDustToPoolFee_eq_ok hfee⟩
  · rw [hids]
    exact (filter_sublist.map _).nodup hnd
  · obtain ⟨a, ha, hok⟩ := mem_of_mapM_ok hamounts hx
    obtain ⟨hid, hval⟩ := candidateAmount_eq_ok hok
    obtain ⟨hmem, hfloor⟩ := mem_eligible.mp ha
    exact ⟨by omega, a, hmem, hid.symm, le_of_eq hval⟩
  · have hcast : (((amounts.map fun x => x.2.val).sum : ℕ) : ℤ) = sum.val := by
      rw [selectedCandidateBalanceSum_eq_ok hsum, candidateSum, ← hvals, Nat.cast_list_sum, map_map]
      rfl
    change (amounts.map fun x => x.2.val).sum + dust.val = reward.val
    omega

theorem planned_of_selected {emitted : List PayoutPolicyAccount} {amounts : List (WeightedEntitlement × U64)}
    (hsel : Selected (eligibleOnchainAccounts accounts floor) reward floor emitted)
    (hamounts : allocateWeightedAmounts reward (candidateWeights emitted) = .ok amounts) :
    Planned accounts poolFee reward.val floor.val ⟨poolFee, amounts⟩ := by
  obtain ⟨allocations, halloc, hfloor⟩ := hsel.allocates
  cases hamounts.symm.trans halloc
  have hspec := allocateWeightedAmounts_eq_ok hamounts
  have hnonneg : ∀ a ∈ emitted, 0 ≤ a.candidateBalanceSats.val := fun a ha =>
    eligible_nonneg (hsel.sublist.subset ha)
  have hids : (amounts.map fun x => x.1.toPayoutIdentity).Perm (emitted.map (·.toPayoutIdentity)) := by
    have := (sortBy_perm WeightedEntitlement.cmp (candidateWeights emitted)).map (·.toPayoutIdentity)
    rw [← hspec.entries, map_map] at this
    refine this.trans (List.Perm.of_eq ?_)
    rw [candidateWeights, map_map]
    rfl
  have hcover : reward.val ≤ ((candidateWeights emitted).map fun e => e.weight.val).sum := by
    have := candidateWeights_sum hnonneg
    have := hsel.covers
    omega
  refine ⟨?_, fun x hx => ⟨hfloor x hx, ?_⟩, 0, hspec.total_eq, .nothing poolFee⟩
  · exact hids.nodup_iff.mpr (((hsel.sublist.trans filter_sublist).map _).nodup hnd)
  · obtain ⟨a, ha, hax⟩ := mem_map.mp (hspec.mem_entries hx)
    refine ⟨a, (mem_eligible.mp (hsel.sublist.subset ha)).1, by rw [← hax], ?_⟩
    have hle := (hspec.quota x hx).le_weight hcover
    rw [← hax] at hle
    have := I128.asU128_val (hnonneg a ha)
    simp only at hle
    omega

theorem planOnchain_eq_ok (h : planOnchain accounts poolFee reward floor = .ok plan) :
    Planned accounts poolFee reward.val floor.val plan := by
  simp only [planOnchain] at h
  split_ifs at h with hnone
  · simp only [bind_eq_ok, require_eq_ok, pure_eq_ok] at h
    obtain ⟨-, -, fee, hfee, rfl⟩ := h
    exact ⟨nodup_nil, fun x hx => absurd hx not_mem_nil, reward.val, Nat.zero_add _,
      addSweptDustToPoolFee_eq_ok hfee⟩
  · obtain ⟨sum, hsum, h⟩ := bind_eq_ok.mp h
    split_ifs at h with hshort
    · simp only [bind_eq_ok, require_eq_ok, pure_eq_ok, okOr_eq_ok, Unsigned.ofNat?_eq_some,
        Unsigned.checkedSub_eq_some] at h
      obtain ⟨-, -, paid, hpaid, dust, hdust, fee, hfee, amounts, hamounts, rfl⟩ := h
      exact planned_of_dust hnd hsum (hpaid ▸ hdust) hamounts hfee
    · simp only [bind_eq_ok, pure_eq_ok] at h
      obtain ⟨emitted, hemitted, amounts, hamounts, rfl⟩ := h
      exact planned_of_selected hnd (selectLoop_eq_ok hemitted) hamounts

end

end Plan

def PayoutPolicyAccount.unpaid (a : PayoutPolicyAccount) : PayoutPolicyAccount :=
  { a with onchainAmountSats := 0, carryForwardBalanceSats := a.candidateBalanceSats, action := .accrued }

theorem PayoutPolicyAccount.IsOpen.unpaid_eq (h : a.IsOpen) : a.unpaid = a := by
  obtain ⟨-, -, honchain, -, hcarry, haccrued⟩ := h
  cases a
  simp only at honchain hcarry haccrued
  subst honchain hcarry haccrued
  rfl

variable {coinbase amount : U64}

theorem payOnchain_eq_ok {a' : PayoutPolicyAccount} (h : payOnchain coinbase amount a = .ok a') :
    a'.unpaid = a.unpaid ∧ a'.onchainAmountSats = amount ∧
      (amount.val : ℤ) ≤ a.candidateBalanceSats.val ∧
      a'.carryForwardBalanceSats.val = a.candidateBalanceSats.val - amount.val := by
  unfold payOnchain at h
  split_ifs at h with hexceeds
  · simp only [bind_eq_ok, reduceCtorEq, and_false, exists_false] at h
  · simp only [bind_eq_ok, okOr_eq_ok, pure_eq_ok, Signed.checkedSub_eq_some, U64.toI128_val] at h
    obtain ⟨carry, hcarry, rfl⟩ := h
    exact ⟨rfl, rfl, not_lt.mp hexceeds, hcarry⟩

theorem payOnchain_isOk (coinbase : U64) (h : (amount.val : ℤ) ≤ a.candidateBalanceSats.val) :
    ∃ a', payOnchain coinbase amount a = .ok a' := by
  have hfit : FitsI128 (a.candidateBalanceSats.val - (U64.toI128 amount).val) := by
    have h1 := a.candidateBalanceSats.lower
    have h2 := a.candidateBalanceSats.upper
    rw [U64.toI128_val]
    constructor
    · omega
    · exact lt_of_le_of_lt (sub_le_self _ (Int.natCast_nonneg _)) h2
  obtain ⟨carry, hcarry⟩ := hfit.exists_val
  have hsub : a.candidateBalanceSats.checkedSub (U64.toI128 amount) = some carry :=
    Signed.checkedSub_eq_some.mpr hcarry
  exact ⟨_, by simp only [payOnchain, if_neg (not_lt.mpr h), hsub, okOr_some, ok_bind]; rfl⟩

theorem unpaid_identity (a : PayoutPolicyAccount) : a.unpaid.toPayoutIdentity = a.toPayoutIdentity := rfl

variable {i : PayoutIdentity}

theorem payIdentity_unpaid (h : payIdentity coinbase amount i accounts = .ok accounts') :
    accounts'.map (·.unpaid) = accounts.map (·.unpaid) := by
  induction accounts generalizing accounts' with
  | nil => exact nomatch h
  | cons a rest ih =>
    rw [payIdentity] at h
    split_ifs at h with hid
    · simp only [bind_eq_ok, pure_eq_ok] at h
      obtain ⟨a', ha', rfl⟩ := h
      rw [map_cons, map_cons, (payOnchain_eq_ok ha').1]
    · simp only [bind_eq_ok, pure_eq_ok] at h
      obtain ⟨rest', hrest', rfl⟩ := h
      rw [map_cons, map_cons, ih hrest']

theorem payIdentity_mem (hnd : (accounts.map (·.toPayoutIdentity)).Nodup)
    (h : payIdentity coinbase amount i accounts = .ok accounts') (a' : PayoutPolicyAccount) (ha' : a' ∈ accounts') :
    (a' ∈ accounts ∧ a'.toPayoutIdentity ≠ i) ∨
      ∃ a ∈ accounts, a.toPayoutIdentity = i ∧ payOnchain coinbase amount a = .ok a' := by
  induction accounts generalizing accounts' with
  | nil => exact nomatch h
  | cons a rest ih =>
    rw [map_cons, nodup_cons] at hnd
    rw [payIdentity] at h
    split_ifs at h with hid
    · simp only [bind_eq_ok, pure_eq_ok] at h
      obtain ⟨b, hb, rfl⟩ := h
      rcases mem_cons.mp ha' with rfl | ha'
      · exact .inr ⟨a, mem_cons_self, hid, hb⟩
      · refine .inl ⟨mem_cons_of_mem _ ha', fun heq => hnd.1 ?_⟩
        rw [hid, ← heq]
        exact mem_map_of_mem ha'
    · simp only [bind_eq_ok, pure_eq_ok] at h
      obtain ⟨rest', hrest', rfl⟩ := h
      rcases mem_cons.mp ha' with rfl | ha'
      · exact .inl ⟨mem_cons_self, hid⟩
      · rcases ih hnd.2 hrest' ha' with ⟨hmem, hne⟩ | ⟨b, hb, hbi, hpay⟩
        · exact .inl ⟨mem_cons_of_mem _ hmem, hne⟩
        · exact .inr ⟨b, mem_cons_of_mem _ hb, hbi, hpay⟩

theorem payIdentity_isOk (coinbase amount : U64) (hmem : i ∈ accounts.map (·.toPayoutIdentity))
    (hpay : ∀ a ∈ accounts, a.toPayoutIdentity = i → (amount.val : ℤ) ≤ a.candidateBalanceSats.val) :
    ∃ accounts', payIdentity coinbase amount i accounts = .ok accounts' := by
  induction accounts with
  | nil => exact absurd hmem not_mem_nil
  | cons a rest ih =>
    by_cases hid : a.toPayoutIdentity = i
    · obtain ⟨a', ha'⟩ := payOnchain_isOk coinbase (hpay a mem_cons_self hid)
      exact ⟨a' :: rest, by simp only [payIdentity, if_pos hid, ha', ok_bind]; rfl⟩
    · rw [map_cons, mem_cons] at hmem
      obtain ⟨rest', hrest'⟩ := ih (hmem.resolve_left (Ne.symm hid))
        fun b hb => hpay b (mem_cons_of_mem _ hb)
      exact ⟨a :: rest', by simp only [payIdentity, if_neg hid, hrest', ok_bind]; rfl⟩

def amountFor (amounts : List (WeightedEntitlement × U64)) (i : PayoutIdentity) : ℕ :=
  ((amounts.filter fun x => x.1.toPayoutIdentity = i).map fun x => x.2.val).sum

variable {done : List (WeightedEntitlement × U64)}

theorem amountFor_append_self (h : x.1.toPayoutIdentity ∉ done.map fun y => y.1.toPayoutIdentity) :
    amountFor (done ++ [x]) x.1.toPayoutIdentity = x.2.val := by
  have hnil : done.filter (fun y => y.1.toPayoutIdentity = x.1.toPayoutIdentity) = [] := by
    refine filter_eq_nil_iff.mpr fun y hy heq => h ?_
    rw [← of_decide_eq_true heq]
    exact mem_map_of_mem hy
  simp [amountFor, hnil]

theorem amountFor_append_of_ne (h : i ≠ x.1.toPayoutIdentity) : amountFor (done ++ [x]) i = amountFor done i := by
  simp [amountFor, Ne.symm h]

theorem amountFor_of_mem {amounts : List (WeightedEntitlement × U64)}
    (hnd : (amounts.map fun y => y.1.toPayoutIdentity).Nodup) (hx : x ∈ amounts) :
    amountFor amounts x.1.toPayoutIdentity = x.2.val := by
  rw [amountFor, filter_key_eq_singleton (fun y => y.1.toPayoutIdentity) hnd hx, map_singleton, sum_singleton]

theorem amountFor_of_not_mem {amounts : List (WeightedEntitlement × U64)}
    (h : ∀ x ∈ amounts, x.1.toPayoutIdentity ≠ i) : amountFor amounts i = 0 := by
  rw [amountFor, filter_eq_nil_iff.mpr (by simpa using h)]
  rfl

/-- Accounts after paying `amounts`: as opened, apart from what was paid. -/
structure Settled (accounts : List PayoutPolicyAccount) (amounts : List (WeightedEntitlement × U64))
    (settled : List PayoutPolicyAccount) : Prop where
  unpaid : settled.map (·.unpaid) = accounts
  onchain : ∀ a ∈ settled, a.onchainAmountSats.val = amountFor amounts a.toPayoutIdentity
  carry : ∀ a ∈ settled,
    a.carryForwardBalanceSats.val = a.candidateBalanceSats.val - a.onchainAmountSats.val

theorem Settled.init (h : ∀ a ∈ accounts, a.IsOpen) :
    Settled accounts [] accounts where
  unpaid := by
    conv_rhs => rw [← map_id accounts]
    exact map_congr_left fun a ha => (h a ha).unpaid_eq
  onchain a ha := by rw [(h a ha).onchain, Unsigned.val_zero]; rfl
  carry a ha := by rw [(h a ha).carry, (h a ha).onchain, Unsigned.val_zero, Nat.cast_zero, sub_zero]

theorem Settled.identities {amounts : List (WeightedEntitlement × U64)} (h : Settled accounts amounts settled) :
    settled.map (·.toPayoutIdentity) = accounts.map (·.toPayoutIdentity) := by
  rw [← h.unpaid, map_map]
  rfl

theorem Settled.step {settled' : List PayoutPolicyAccount} (hnd : (accounts.map (·.toPayoutIdentity)).Nodup)
    (h : Settled accounts done settled) (hfresh : x.1.toPayoutIdentity ∉ done.map fun y => y.1.toPayoutIdentity)
    (hstep : settleAmount coinbase floor settled x = .ok settled') : Settled accounts (done ++ [x]) settled' := by
  simp only [settleAmount, bind_eq_ok, require_eq_ok, exists_and_left, exists_const] at hstep
  obtain ⟨-, hpay⟩ := hstep
  have hmem := payIdentity_mem (h.identities ▸ hnd) hpay
  refine ⟨(payIdentity_unpaid hpay).trans h.unpaid, fun a' ha' => ?_, fun a' ha' => ?_⟩
  · rcases hmem a' ha' with ⟨hold, hne⟩ | ⟨a, -, hai, hok⟩
    · rw [amountFor_append_of_ne hne]
      exact h.onchain a' hold
    · obtain ⟨hun, hamount, -, -⟩ := payOnchain_eq_ok hok
      have hid : a'.toPayoutIdentity = x.1.toPayoutIdentity := by
        rw [← unpaid_identity a', hun, unpaid_identity, hai]
      rw [hamount, hid, amountFor_append_self hfresh]
  · rcases hmem a' ha' with ⟨hold, -⟩ | ⟨a, -, -, hok⟩
    · exact h.carry a' hold
    · obtain ⟨hun, hamount, -, hcarry⟩ := payOnchain_eq_ok hok
      have hcand := congrArg (fun b : PayoutPolicyAccount => b.candidateBalanceSats) hun
      change a'.candidateBalanceSats = a.candidateBalanceSats at hcand
      rw [hcarry, hcand, hamount]

theorem settle_plan {poolFee : Option PoolFeeManifest} {plan : OnchainPlan} (coinbase : U64)
    (hopen : ∀ a ∈ accounts, a.IsOpen) (hnd : (accounts.map (·.toPayoutIdentity)).Nodup)
    (hplan : Planned accounts poolFee reward.val floor.val plan) :
    ∃ settled, plan.amounts.foldlM (settleAmount coinbase floor) accounts = .ok settled ∧
      Settled accounts plan.amounts settled := by
  refine foldlM_isOk _ _ _ (fun done acc => Settled accounts done acc) (Settled.init hopen) ?_
  intro done x acc hpre hacc
  have hx : x ∈ plan.amounts := hpre.subset (by simp)
  obtain ⟨hfloor, a, ha, hai, hle⟩ := hplan.payable x hx
  have hfresh : x.1.toPayoutIdentity ∉ done.map fun y => y.1.toPayoutIdentity := by
    have := (hpre.sublist.map (fun y => y.1.toPayoutIdentity)).nodup hplan.nodup
    rw [map_append, map_cons, map_nil, nodup_append] at this
    exact fun hmem => this.2.2 _ hmem _ (mem_singleton_self _) rfl
  have hcand : ∀ b ∈ acc, b.toPayoutIdentity = x.1.toPayoutIdentity →
      (x.2.val : ℤ) ≤ b.candidateBalanceSats.val := by
    intro b hb hbi
    have hb0 : b.unpaid ∈ accounts := hacc.unpaid ▸ mem_map_of_mem hb
    -- Identities are distinct, so `b` is the account the plan meant.
    have heq : b.unpaid = a := inj_on_of_nodup_map hnd hb0 ha (hbi.trans hai.symm)
    rw [← heq] at hle
    exact hle
  obtain ⟨acc', hacc'⟩ := payIdentity_isOk coinbase x.2
    (hacc.identities ▸ hai ▸ mem_map_of_mem ha) hcand
  have hstep : settleAmount coinbase floor acc x = .ok acc' := by
    simp only [settleAmount, require_of hfloor, ok_bind, hacc']
  exact ⟨acc', hstep, hacc.step hnd hfresh hstep⟩

end QbitPrism
