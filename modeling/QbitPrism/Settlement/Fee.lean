import Mathlib
import QbitPrism.Ctv.Precommitment
import QbitPrism.Payout.Policy

/-!
# Settlement recipients and the fanout fee

`settlement.rs`: who a block pays directly and who through fanout chunks, and how the fee
of a fanout is charged to its recipients in proportion to what they are paid.
-/
namespace QbitPrism
open MachineInt Checked SortBy ByteReader

structure FanoutFeeRatePolicy where
  marketFeeRateSatsPer1000Weight : U64
  premiumBps : U64
  deriving DecidableEq

structure SettlementRecipient extends PayoutIdentity where
  amountSats : U64
  deriving DecidableEq

structure SettlementFanoutChunk where
  chunkIndex : ℕ
  recipientCount : ℕ
  amountSats : U64
  recipients : List SettlementRecipient
  deriving DecidableEq

structure FanoutFeeRecipient extends PayoutIdentity where
  grossAmountSats : U64
  feeSats : U64
  netAmountSats : U64
  deriving DecidableEq

structure FanoutFeeDecision where
  totalGrossSats : U64
  requestedFeeSats : U64
  appliedFeeSats : U64
  payableRecipients : List FanoutFeeRecipient
  carryForwardRecipients : List FanoutFeeRecipient
  deriving DecidableEq

structure SettlementModeDecision where
  mode : SettlementMode
  directRecipients : List SettlementRecipient
  fanoutChunks : List SettlementFanoutChunk
  directRecipientCount : ℕ
  fanoutRecipientCount : ℕ
  fanoutChunkCount : ℕ
  directAmountSats : U64
  fanoutAmountSats : U64
  totalAmountSats : U64
  coinbaseSettlementOutputCount : ℕ
  reservedCoinbaseOutputCount : ℕ
  reason : String
  deriving DecidableEq

def settlementError (reason : String) : PrismError := .settlementModeSelection reason

def compactSizeLen (value : ℕ) : ℕ :=
  if value < 253 then 1
  else if value ≤ 0xffff then 3
  else if value ≤ 0xffffffff then 5
  else 9

def ctvFanoutFixedWeightBytes : ℕ := 90

def ctvFanoutP2mrOutputBytes : ℕ := 43

/-- The weight of a witnessed fanout with this many payouts and no anchor. -/
def estimatedCtvFanoutWeightBytes (recipientCount : ℕ) : Except PrismError U64 :=
  okOr (Unsigned.ofNat? (ctvFanoutFixedWeightBytes + compactSizeLen recipientCount +
    recipientCount * ctvFanoutP2mrOutputBytes)) (settlementError "fanout weight estimate overflowed")

def estimateCtvFanoutFeeSats (recipientCount : ℕ) (policy : FanoutFeeRatePolicy) :
    Except PrismError U64 := do
  require (recipientCount ≠ 0) (settlementError "fanout recipient count must be positive")
  require (policy.marketFeeRateSatsPer1000Weight ≠ 0)
    (settlementError "market_fee_rate_sats_per_1000_weight must be positive")
  require (policy.premiumBps ≠ 0) (settlementError "premium_bps must be positive")
  let fanoutWeight ← estimatedCtvFanoutWeightBytes recipientCount
  let numerator ← okOr (((U64.toU128 fanoutWeight).checkedMul
    (U64.toU128 policy.marketFeeRateSatsPer1000Weight)).bind
      (·.checkedMul (U64.toU128 policy.premiumBps))) (settlementError "fanout fee estimate overflowed")
  let rounded ← okOr (numerator.checkedAdd (.wrapping (1000 * 10000 - 1)))
    (settlementError "fanout fee estimate overflowed")
  okOr (Unsigned.ofNat? (rounded.val / (1000 * 10000)))
    (settlementError "fanout fee estimate exceeds uint64")

def normalizeRecipientP2mrProgram (recipient : SettlementRecipient) :
    Except PrismError SettlementRecipient := do
  let bytes ← (Hex.decode recipient.p2mrProgramHex).mapError fun err =>
    settlementError s!"recipient {recipient.recipientId} p2mr_program_hex must be hex: {err.text}"
  require (bytes.length = 32) (settlementError
    s!"recipient {recipient.recipientId} p2mr_program_hex must be 32 bytes, got {bytes.length}")
  pure { recipient with p2mrProgramHex := Hex.encode bytes }

def canonicalRecipientCmp (left right : SettlementRecipient) : Ordering :=
  left.toPayoutIdentity.canonicalCmp right.toPayoutIdentity

def fanoutFeeRecipientCmp (left right : FanoutFeeRecipient) : Ordering :=
  left.toPayoutIdentity.canonicalCmp right.toPayoutIdentity

def validateRecipients (recipients : List SettlementRecipient) :
    Except PrismError (List PayoutIdentity) :=
  recipients.foldlM (fun seen recipient => do
    require (recipient.amountSats ≠ 0)
      (settlementError s!"recipient {recipient.recipientId} amount must be positive")
    require (recipient.toPayoutIdentity ∉ seen)
      (settlementError s!"duplicate settlement recipient {recipient.recipientId}")
    pure (recipient.toPayoutIdentity :: seen)) []

def sumAmounts (recipients : List SettlementRecipient) : Except PrismError U64 :=
  okOr (Unsigned.checkedSum (recipients.map (·.amountSats)))
    (settlementError "settlement amount overflowed")

def feeShare (feeSats totalGrossSats : U64) (recipient : SettlementRecipient) :
    Except PrismError (FanoutFeeRecipient × ℕ) := do
  let product ← okOr ((U64.toU128 feeSats).checkedMul (U64.toU128 recipient.amountSats))
    (settlementError "fanout fee allocation overflowed")
  let share ← okOr (Unsigned.ofNat? (product.val / totalGrossSats.val))
    (settlementError "fanout fee share exceeds uint64")
  let net ← okOr (recipient.amountSats.checkedSub share)
    (settlementError "fanout fee exceeds recipient amount")
  pure ({ recipient.toPayoutIdentity with
      grossAmountSats := recipient.amountSats
      feeSats := share
      netAmountSats := net }, product.val % totalGrossSats.val)

def feeRemainderCmp (left right : FanoutFeeRecipient × ℕ) : Ordering :=
  (compare right.2 left.2).then (fanoutFeeRecipientCmp left.1 right.1)

def chargeOneMore (recipient : FanoutFeeRecipient) : Except PrismError FanoutFeeRecipient := do
  let fee ← okOr (recipient.feeSats.checkedAdd 1) (settlementError "fanout fee share overflowed")
  let net ← okOr (recipient.grossAmountSats.checkedSub fee)
    (settlementError "fanout fee exceeds recipient amount")
  pure { recipient with feeSats := fee, netAmountSats := net }

def allocateProportionalFee (recipients : List SettlementRecipient) (feeSats totalGrossSats : U64) :
    Except PrismError (List FanoutFeeRecipient) := do
  let shares ← recipients.mapM (feeShare feeSats totalGrossSats)
  let floorFeeSum ← okOr (Unsigned.checkedSum (shares.map (·.1.feeSats)))
    (.panicked "attempt to add with overflow")
  let remainderFeeSats ← okOr (feeSats.checkedSub floorFeeSum)
    (settlementError "fanout fee floor allocation exceeded total fee")
  let ordered := (sortBy feeRemainderCmp shares).map Prod.fst
  let charged ← (ordered.take remainderFeeSats.val).mapM chargeOneMore
  pure (charged ++ ordered.drop remainderFeeSats.val)

def carriedFanoutFeeRecipient (identity : PayoutIdentity) (grossAmountSats : U64) : FanoutFeeRecipient :=
  { identity with grossAmountSats, feeSats := 0, netAmountSats := grossAmountSats }

/-- The rounds of `apply_proportional_fanout_fee`: recipients the fee would push below the
floor leave, and the fee is charged again to the rest. -/
def chargeRounds (feeSats minOutputSats totalGrossSats : U64) :
    ℕ → List SettlementRecipient → List FanoutFeeRecipient → Except PrismError FanoutFeeDecision
  | 0, _, _ => .error .outOfFuel
  | fuel + 1, candidates, carried => do
    let nothingPayable (carried : List FanoutFeeRecipient) : FanoutFeeDecision :=
      { totalGrossSats
        requestedFeeSats := feeSats
        appliedFeeSats := 0
        payableRecipients := []
        carryForwardRecipients := sortBy fanoutFeeRecipientCmp carried }
    if candidates = [] then pure (nothingPayable carried)
    else
      let candidateSum ← sumAmounts candidates
      if candidateSum.val ≤ feeSats.val then
        pure (nothingPayable (carried ++
          candidates.map fun r => carriedFanoutFeeRecipient r.toPayoutIdentity r.amountSats))
      else
        let allocated ← allocateProportionalFee candidates feeSats candidateSum
        let payable := allocated.filter fun r => minOutputSats.val ≤ r.netAmountSats.val
        let belowFloor := allocated.filter fun r => r.netAmountSats.val < minOutputSats.val
        if belowFloor = [] then
          pure {
            totalGrossSats
            requestedFeeSats := feeSats
            appliedFeeSats := feeSats
            payableRecipients := sortBy fanoutFeeRecipientCmp payable
            carryForwardRecipients := sortBy fanoutFeeRecipientCmp carried }
        else
          let belowFloorKeys := belowFloor.map (·.toPayoutIdentity)
          chargeRounds feeSats minOutputSats totalGrossSats fuel
            (candidates.filter fun r => r.toPayoutIdentity ∉ belowFloorKeys)
            (carried ++ belowFloor.map fun r =>
              carriedFanoutFeeRecipient r.toPayoutIdentity r.grossAmountSats)

def applyProportionalFanoutFee (recipients : List SettlementRecipient) (feeSats minOutputSats : U64) :
    Except PrismError FanoutFeeDecision := do
  require (minOutputSats ≠ 0) (settlementError "min_output_sats must be positive")
  require (recipients ≠ []) (settlementError "no fanout recipients to charge")
  let normalized ← recipients.mapM normalizeRecipientP2mrProgram
  let candidates := sortBy canonicalRecipientCmp normalized
  let _ ← validateRecipients candidates
  let totalGrossSats ← sumAmounts candidates
  chargeRounds feeSats minOutputSats totalGrossSats (candidates.length + 1) candidates []

/-- The fee every payable recipient of one chunk is charged, by account key. -/
def chargeChunk (minOutputSats : U64) (feePolicy : FanoutFeeRatePolicy)
    (byKey : List (String × FanoutFeeRecipient)) (chunk : SettlementFanoutChunk) :
    Except PrismError (List (String × FanoutFeeRecipient)) := do
  let fanoutFeeSats ← estimateCtvFanoutFeeSats chunk.recipients.length feePolicy
  let feeDecision ← applyProportionalFanoutFee chunk.recipients fanoutFeeSats minOutputSats
  require (feeDecision.carryForwardRecipients = [])
    (settlementError "fanout fee would push a recipient below the payout floor")
  feeDecision.payableRecipients.foldlM (fun byKey recipient => do
    let key := accountKey recipient.toPayoutIdentity
    require (key ∉ byKey.map Prod.fst) (settlementError "duplicate fanout fee recipient")
    pure ((key, recipient) :: byKey)) byKey

def chargeAccount (byKey : List (String × FanoutFeeRecipient)) (account : PayoutPolicyAccount) :
    Except PrismError PayoutPolicyAccount :=
  match byKey.lookup (accountKey account.toPayoutIdentity) with
  | none => .ok account
  | some recipient => do
    require (account.onchainAmountSats = recipient.grossAmountSats)
      (.auditMismatch "ctv_fanout_fee_accounting")
    pure { account with settlementFeeSats := recipient.feeSats }

def fanoutFeesByKey (policyManifest : PayoutPolicyManifest) (decision : SettlementModeDecision)
    (feePolicy : FanoutFeeRatePolicy) : Except PrismError (List (String × FanoutFeeRecipient)) :=
  decision.fanoutChunks.foldlM (chargeChunk policyManifest.minOutputSats feePolicy) []

def applyCtvFanoutFeeAccounting (policyManifest : PayoutPolicyManifest)
    (decision : SettlementModeDecision) (feePolicy : FanoutFeeRatePolicy) :
    Except PrismError PayoutPolicyManifest := do
  let byKey ← fanoutFeesByKey policyManifest decision feePolicy
  let accounts ← policyManifest.accounts.mapM (chargeAccount byKey)
  pure { policyManifest with accounts }

theorem chargeAccount_eq_ok {byKey : List (String × FanoutFeeRecipient)} {account charged : PayoutPolicyAccount}
    (h : chargeAccount byKey account = .ok charged) :
    charged = { account with settlementFeeSats := charged.settlementFeeSats } := by
  unfold chargeAccount at h
  split at h
  · cases h
    rfl
  · simp only [bind_eq_ok, pure_eq_ok] at h
    obtain ⟨-, -, rfl⟩ := h
    rfl

theorem applyCtvFanoutFeeAccounting_eq_ok {manifest charged : PayoutPolicyManifest}
    {decision : SettlementModeDecision} {feePolicy : FanoutFeeRatePolicy}
    (h : applyCtvFanoutFeeAccounting manifest decision feePolicy = .ok charged) :
    charged = { manifest with accounts := charged.accounts } ∧
      ∀ {β : Type} (f : PayoutPolicyAccount → β),
        (∀ a fee, f { a with settlementFeeSats := fee } = f a) →
          charged.accounts.map f = manifest.accounts.map f := by
  simp only [applyCtvFanoutFeeAccounting, bind_eq_ok, pure_eq_ok] at h
  obtain ⟨byKey, -, accounts, haccounts, rfl⟩ := h
  refine ⟨rfl, ?_⟩
  intro β f hf
  refine map_eq_of_mapM_ok f f haccounts ?_
  intro account charged hcharged
  rw [chargeAccount_eq_ok hcharged, hf]

end QbitPrism
