import Mathlib
import QbitPrism.Payout.Aggregation
import QbitPrism.Payout.Allocation

/-!
# The payout policy

`apply_payout_policy` decides, for one block, who is paid on chain and who keeps a
carried balance. A list of account indices of the source is here the list of the
accounts themselves: the accounts do not change while indices are held.
-/
namespace QbitPrism
open MachineInt Checked MergeByKey SortBy

def PayoutPolicy.minOutputSats (policy : PayoutPolicy) : Except PrismError U64 :=
  match policy.minOutputSats? with
  | some minOutputSats =>
    if minOutputSats = 0 then .error .invalidMinOutputFloor else .ok minOutputSats
  | none =>
    okOr ((policy.p2mrSpendInputBytes.checkedMul policy.targetFeerateSatsPerByte).bind
      (·.checkedMul policy.safetyMultiplier)) .payoutPolicyOverflow

def PayoutPolicy.floorFormula (policy : PayoutPolicy) : String :=
  match policy.minOutputSats? with
  | some minOutputSats => "configured fixed floor: " ++ toString minOutputSats.val ++ " sats"
  | none =>
    toString policy.p2mrSpendInputBytes.val ++ " bytes/input * " ++
      toString policy.targetFeerateSatsPerByte.val ++ " sat/byte * " ++
      toString policy.safetyMultiplier.val ++ "x safety"

def poolFeeManifest (coinbaseValueSats : U64) (policy : PayoutPolicy) :
    Except PrismError (Option PoolFeeManifest) :=
  match policy.poolFeePolicy with
  | none => .ok none
  | some feePolicy => do
    require (feePolicy.feeBps.val ≤ 10000) (.poolFeeBpsTooHigh feePolicy.feeBps)
    let product ← okOr (Unsigned.ofNat? (w := 128) (coinbaseValueSats.val * feePolicy.feeBps.val))
      .payoutPolicyOverflow
    let feeSats ← okOr (Unsigned.ofNat? (product.val / 10000)) .payoutPolicyOverflow
    pure (some {
      feePolicy.toPayoutIdentity with
      feeBps := feePolicy.feeBps
      earnedPoolFeeSats := feeSats
      sweptDustLiabilitySats := 0
      amountSats := feeSats })

def addSweptDustToPoolFee (poolFee : Option PoolFeeManifest) (sweptDustSats : U64) :
    Except PrismError (Option PoolFeeManifest) :=
  if sweptDustSats = 0 then .ok poolFee
  else do
    let fee ← okOr poolFee .payoutPolicyOverflow
    let swept ← okOr (fee.sweptDustLiabilitySats.checkedAdd sweptDustSats) .payoutPolicyOverflow
    let amount ← okOr (fee.earnedPoolFeeSats.checkedAdd swept) .payoutPolicyOverflow
    pure (some { fee with sweptDustLiabilitySats := swept, amountSats := amount })

structure PolicyAccountSeed extends PayoutIdentity where
  grossAmountSats : U64
  priorBalanceSats : I128
  deriving DecidableEq

def entitlementSeed (priorByProgram : Std.TreeMap String CarryForwardBalance)
    (x : WeightedEntitlement × U64) : PolicyAccountSeed :=
  { x.1.toPayoutIdentity with
    grossAmountSats := x.2
    priorBalanceSats := (priorByProgram[x.1.programKey]?.map (·.balanceSats)).getD 0 }

def priorSeed (balance : CarryForwardBalance) : PolicyAccountSeed :=
  { balance.toPayoutIdentity with
    grossAmountSats := 0
    priorBalanceSats := balance.balanceSats }

/-- The seeds of balances whose program has no account yet, and every program seen. -/
def pushPriorSeeds : List CarryForwardBalance → List String → List PolicyAccountSeed × List String
  | [], seen => ([], seen)
  | balance :: rest, seen =>
    if balance.programKey ∈ seen then pushPriorSeeds rest seen
    else
      let pushed := pushPriorSeeds rest (balance.programKey :: seen)
      (priorSeed balance :: pushed.1, pushed.2)

def openAccount (seed : PolicyAccountSeed) : Except PrismError PayoutPolicyAccount := do
  let candidate ← okOr (seed.priorBalanceSats.checkedAdd (U64.toI128 seed.grossAmountSats))
    .payoutPolicyOverflow
  pure {
    seed.toPayoutIdentity with
    accountType := .miner
    grossAmountSats := seed.grossAmountSats
    priorBalanceSats := seed.priorBalanceSats
    candidateBalanceSats := candidate
    onchainAmountSats := 0
    settlementFeeSats := 0
    carryForwardBalanceSats := candidate
    action := .accrued }

structure OpenedAccounts where
  accounts : List PayoutPolicyAccount
  seenAccounts : List String

/-- The miner accounts of a block before anything is paid: one per program of the
merged entitlements, then one per program that only carries a balance. -/
def openAccounts (entitlements : List WeightedEntitlement) (priorBalances : List CarryForwardBalance)
    (minerRewardValueSats : U64) : Except PrismError OpenedAccounts := do
  let settlementEntitlements ← aggregateEntitlementsByPayoutProgram entitlements
  let grossAmounts ← allocateWeightedAmounts minerRewardValueSats settlementEntitlements
  let priorByProgram ← carryForwardByPayoutProgram priorBalances
  let seen := grossAmounts.map fun x => x.1.programKey
  let pushed := pushPriorSeeds (values priorByProgram) seen
  let accounts ← (grossAmounts.map (entitlementSeed priorByProgram) ++ pushed.1).mapM openAccount
  pure ⟨accounts, pushed.2⟩

def eligibleOnchainAccounts (accounts : List PayoutPolicyAccount) (minOutputSats : U64) :
    List PayoutPolicyAccount :=
  accounts.filter fun account => (minOutputSats.val : ℤ) ≤ account.candidateBalanceSats.val

def selectedCandidateBalanceSum (selected : List PayoutPolicyAccount) : Except PrismError U128 :=
  selected.foldlM (fun sum account => do
    let candidate ← okOr (I128.toU128? account.candidateBalanceSats) .payoutPolicyOverflow
    okOr (sum.checkedAdd candidate) .payoutPolicyOverflow) 0

def accountKey (a : PayoutIdentity) : String :=
  a.recipientId ++ "\x00" ++ a.orderKey ++ "\x00" ++ a.p2mrProgramHex

def candidateWeights (selected : List PayoutPolicyAccount) : List WeightedEntitlement :=
  selected.map fun account =>
    { account.toPayoutIdentity with weight := I128.asU128 account.candidateBalanceSats }

def underFloorKeys (allocations : List (WeightedEntitlement × U64)) (minOutputSats : U64) :
    List String :=
  (allocations.filter fun x => x.2.val < minOutputSats.val).map fun x => accountKey x.1.toPayoutIdentity

/-- The pruning loop of `select_onchain_accounts`, with a bound on its rounds. -/
def selectLoop (coinbaseValueSats minOutputSats : U64) :
    ℕ → List PayoutPolicyAccount → Except PrismError (List PayoutPolicyAccount)
  | 0, _ => .error .outOfFuel
  | fuel + 1, selected => do
    require (selected ≠ []) .noOnchainRecipients
    let sum ← selectedCandidateBalanceSum selected
    require (coinbaseValueSats.val ≤ sum.val) (.payoutExceedsCandidateBalance coinbaseValueSats sum)
    let allocations ← allocateWeightedAmounts coinbaseValueSats (candidateWeights selected)
    let underFloor := underFloorKeys allocations minOutputSats
    if underFloor = [] then
      pure selected
    else
      selectLoop coinbaseValueSats minOutputSats fuel
        (selected.filter fun account => accountKey account.toPayoutIdentity ∉ underFloor)

/-- Every round but the last drops an account, so one round per account and one more
are enough. -/
def selectOnchainAccounts (accounts : List PayoutPolicyAccount) (coinbaseValueSats minOutputSats : U64) :
    Except PrismError (List PayoutPolicyAccount) :=
  let eligible := eligibleOnchainAccounts accounts minOutputSats
  selectLoop coinbaseValueSats minOutputSats (eligible.length + 1) eligible

/-- What a block pays on chain, and the pool fee after the sweep. -/
structure OnchainPlan where
  poolFee : Option PoolFeeManifest
  amounts : List (WeightedEntitlement × U64)

def candidateAmount (account : PayoutPolicyAccount) : Except PrismError (WeightedEntitlement × U64) := do
  let amount ← okOr (I128.toU64? account.candidateBalanceSats) .payoutPolicyOverflow
  pure ({ account.toPayoutIdentity with weight := U64.toU128 amount }, amount)

def planOnchain (accounts : List PayoutPolicyAccount) (poolFee : Option PoolFeeManifest)
    (minerRewardValueSats minOutputSats : U64) : Except PrismError OnchainPlan := do
  let eligible := eligibleOnchainAccounts accounts minOutputSats
  if eligible = [] then do
    require (poolFee.isSome) .noOnchainRecipients
    let poolFee ← addSweptDustToPoolFee poolFee minerRewardValueSats
    pure ⟨poolFee, []⟩
  else do
    let eligibleSum ← selectedCandidateBalanceSum eligible
    if eligibleSum.val < minerRewardValueSats.val then do
      require (poolFee.isSome) (.payoutExceedsCandidateBalance minerRewardValueSats eligibleSum)
      let paid ← okOr (Unsigned.ofNat? eligibleSum.val) .payoutPolicyOverflow
      let sweptDustSats ← okOr (minerRewardValueSats.checkedSub paid) .payoutPolicyOverflow
      let poolFee ← addSweptDustToPoolFee poolFee sweptDustSats
      let amounts ← eligible.mapM candidateAmount
      pure ⟨poolFee, amounts⟩
    else do
      let emitted ← selectOnchainAccounts accounts minerRewardValueSats minOutputSats
      let amounts ← allocateWeightedAmounts minerRewardValueSats (candidateWeights emitted)
      pure ⟨poolFee, amounts⟩

/-- Pay `amountSats` to an account on chain; the rest of its candidate is carried. -/
def payOnchain (coinbaseValueSats amountSats : U64) (account : PayoutPolicyAccount) :
    Except PrismError PayoutPolicyAccount := do
  if account.candidateBalanceSats.val < amountSats.val then do
    let candidate ← okOr (I128.toU128? account.candidateBalanceSats) .payoutPolicyOverflow
    .error (.payoutExceedsCandidateBalance coinbaseValueSats candidate)
  else do
    let carry ← okOr (account.candidateBalanceSats.checkedSub (U64.toI128 amountSats)) .payoutPolicyOverflow
    pure { account with
      onchainAmountSats := amountSats
      carryForwardBalanceSats := carry
      action := .onchain }

def payIdentity (coinbaseValueSats amountSats : U64) (identity : PayoutIdentity) :
    List PayoutPolicyAccount → Except PrismError (List PayoutPolicyAccount)
  | [] => .error (.panicked "selected on-chain account must exist")
  | account :: rest =>
    if account.toPayoutIdentity = identity then do
      let account ← payOnchain coinbaseValueSats amountSats account
      pure (account :: rest)
    else do
      let rest ← payIdentity coinbaseValueSats amountSats identity rest
      pure (account :: rest)

def settleAmount (coinbaseValueSats minOutputSats : U64) (accounts : List PayoutPolicyAccount)
    (x : WeightedEntitlement × U64) : Except PrismError (List PayoutPolicyAccount) := do
  require (minOutputSats.val ≤ x.2.val) (.payoutBelowFloor x.1.recipientId x.2 minOutputSats)
  payIdentity coinbaseValueSats x.2 x.1.toPayoutIdentity accounts

def poolFeeAccount (fee : PoolFeeManifest) : PayoutPolicyAccount :=
  { fee.toPayoutIdentity with
    accountType := .poolFee
    grossAmountSats := fee.amountSats
    priorBalanceSats := 0
    candidateBalanceSats := U64.toI128 fee.amountSats
    onchainAmountSats := fee.amountSats
    settlementFeeSats := 0
    carryForwardBalanceSats := 0
    action := .onchain }

/-- The pool fee's own account, last; its program must be nobody else's. -/
def pushPoolFeeAccount (poolFee : Option PoolFeeManifest) (seenAccounts : List String)
    (accounts : List PayoutPolicyAccount) : Except PrismError (List PayoutPolicyAccount) :=
  match poolFee with
  | none => .ok accounts
  | some fee => do
    require (fee.programKey ∉ seenAccounts) .duplicatePoolFeeAccount
    pure (accounts ++ [poolFeeAccount fee])

def PayoutPolicyAccount.entitlement (account : PayoutPolicyAccount) : WeightedEntitlement :=
  { account.toPayoutIdentity with weight := U64.toU128 account.onchainAmountSats }

def onchainEntitlements (accounts : List PayoutPolicyAccount) : List WeightedEntitlement :=
  (accounts.filter fun account => 0 < account.onchainAmountSats.val).map (·.entitlement)

def onchainSum (entitlements : List WeightedEntitlement) : Except PrismError U64 :=
  entitlements.foldlM (fun sum e => do
    let weight ← okOr (Unsigned.ofNat? e.weight.val) .payoutPolicyOverflow
    okOr (sum.checkedAdd weight) .payoutPolicyOverflow) 0

def PayoutPolicyAccount.cmp (a b : PayoutPolicyAccount) : Ordering :=
  a.toPayoutIdentity.canonicalCmp b.toPayoutIdentity

def applyPayoutPolicy (rewardManifest : PrismRewardManifest) (priorBalances : List CarryForwardBalance)
    (policy : PayoutPolicy) : Except PrismError PayoutPolicyManifest := do
  let minOutputSats ← policy.minOutputSats
  let poolFee ← poolFeeManifest rewardManifest.coinbaseValueSats policy
  require (¬(policy.coinbaseOutputPolicy = .poolFeeFirst ∧ poolFee = none)) .poolFeeFirstRequiresPoolFee
  let feeAmountSats := (poolFee.map (·.amountSats)).getD 0
  let minerRewardValueSats ← okOr (rewardManifest.coinbaseValueSats.checkedSub feeAmountSats)
    .payoutPolicyOverflow
  require (minOutputSats.val ≤ minerRewardValueSats.val)
    (.coinbaseBelowFloor minerRewardValueSats minOutputSats)
  let opened ← openAccounts rewardManifest.entitlements priorBalances minerRewardValueSats
  let plan ← planOnchain opened.accounts poolFee minerRewardValueSats minOutputSats
  let settled ← plan.amounts.foldlM (settleAmount rewardManifest.coinbaseValueSats minOutputSats)
    opened.accounts
  let accounts ← pushPoolFeeAccount plan.poolFee opened.seenAccounts settled
  let entitlements := onchainEntitlements accounts
  let sum ← onchainSum entitlements
  require (sum = rewardManifest.coinbaseValueSats) .payoutPolicyOverflow
  pure {
    schema := "qbit.prism.payout-policy.v1"
    blockHeight := rewardManifest.blockHeight
    coinbaseValueSats := rewardManifest.coinbaseValueSats
    minOutputSats
    floorFormula := policy.floorFormula
    coinbaseOutputPolicy := policy.coinbaseOutputPolicy
    poolFee := plan.poolFee
    accounts := sortBy PayoutPolicyAccount.cmp accounts
    onchainEntitlements := entitlements }

end QbitPrism
