import Mathlib
import QbitPrism.Audit.Stored
import QbitPrism.Ctv.Build
import QbitPrism.Settlement.Mode
import QbitPrism.Window.Parallel

/-!
# Building the audit bundle of a block settled by CTV

`build_audit_bundle_body_with_ctv_settlement_options_parallel`: the coinbase pays some recipients
directly and commits to fanouts for the others. The fanouts are prepared before the coinbase,
since their leaves are in its witness commitment, and bound to it afterwards.
-/
namespace QbitPrism
open MachineInt Checked SortBy ByteReader

structure ManifestSigningKey (crypto : Crypto) where
  publicKey : Bytes 32
  sign : List UInt8 → Bytes 64
  valid : crypto.ed25519ValidKey publicKey = true
  verifies : ∀ message, crypto.ed25519Verifies publicKey message (sign message) = true

namespace ManifestSigningKey
variable {crypto : Crypto} (key : ManifestSigningKey crypto)

def publicKeyHex : String := Hex.encode key.publicKey.toList

def signMessageHex (message : List UInt8) : String := Hex.encode (key.sign message).toList

def signature (message : List UInt8) : ManifestSignature where
  algorithm := "ed25519"
  publicKeyHex := key.publicKeyHex
  signatureHex := key.signMessageHex message

end ManifestSigningKey

structure CtvSettlementInput where
  shares : List AcceptedShare
  foundBlock : FoundBlock
  windowCut : Option WindowCut
  priorBalances : List CarryForwardBalance
  payoutPolicy : PayoutPolicy
  directFloorSats : U64
  settlementConfig : SettlementModeConfig
  ctvFanoutFeePolicy : Option FanoutFeeRatePolicy
  coinbaseScriptSigSuffixHex : Option String
  witnessMerkleLeavesHex : List String

variable (ctx : AuditContext)

def buildLedgerWindowAttestation (rewardManifest : PrismRewardManifest)
    (priorBalances : List CarryForwardBalance) (signingKey : ManifestSigningKey ctx.toCrypto) :
    LedgerWindowAttestation :=
  let payload : AttestationPayload := {
    schema := "qbit.prism.ledger-window-attestation.v1"
    blockHeight := rewardManifest.blockHeight
    coinbaseValueSats := rewardManifest.coinbaseValueSats
    anchorJobIssuedAtMs := rewardManifest.anchorJobIssuedAtMs
    networkDifficulty := rewardManifest.networkDifficulty
    shareSliceDigestHex := rewardManifest.shareSliceDigestHex
    priorBalancesDigestHex := priorBalancesDigestHex ctx.toCrypto priorBalances }
  { payload with signature := signingKey.signature (ctx.attestationBytes payload) }

def pinnedSettlementRecipientForPolicy (manifest : PayoutPolicyManifest) : Option SettlementRecipient :=
  (poolFeeFirstOutput manifest).map fun poolFee =>
    { poolFee.toPayoutIdentity with amountSats := poolFee.amountSats }

structure SettledPayouts where
  payoutPolicyManifest : PayoutPolicyManifest
  decision : SettlementModeDecision
  fanoutFeeRecipients : List (String × FanoutFeeRecipient)

/-- `apply_ctv_fanout_fee_accounting` charges the accounts and also returns the fees it charged. -/
def settlePayouts (input : CtvSettlementInput) (rewardManifest : PrismRewardManifest) :
    Except PrismError SettledPayouts := do
  let policyManifest ← applyPayoutPolicy rewardManifest input.priorBalances input.payoutPolicy
  let recipients ← settlementRecipientsFromEntitlements policyManifest.onchainEntitlements
  let decision ← selectSettlementModeWithPinnedDirect recipients input.directFloorSats
    input.settlementConfig (pinnedSettlementRecipientForPolicy policyManifest)
  match input.ctvFanoutFeePolicy with
  | none => pure { payoutPolicyManifest := policyManifest, decision, fanoutFeeRecipients := [] }
  | some feePolicy => do
    let fanoutFeeRecipients ← fanoutFeesByKey policyManifest decision feePolicy
    let charged ← applyCtvFanoutFeeAccounting policyManifest decision feePolicy
    pure { payoutPolicyManifest := charged, decision, fanoutFeeRecipients }

/-- A recipient's payout: net of its fee when it is charged one. -/
def fanoutPayout (feeRecipients : List (String × FanoutFeeRecipient)) (recipient : SettlementRecipient) :
    CtvFanoutPayout :=
  let feeRecipient := feeRecipients.lookup (accountKey recipient.toPayoutIdentity)
  { recipient.toPayoutIdentity with
    grossAmountSats := feeRecipient.elim 0 (·.grossAmountSats)
    feeSats := feeRecipient.elim 0 (·.feeSats)
    amountSats := feeRecipient.elim recipient.amountSats (·.netAmountSats) }

def prepareFanout (rewardManifest : PrismRewardManifest) (settled : SettledPayouts)
    (chunk : SettlementFanoutChunk) : Except PrismError PreparedCtvFanout := do
  let chunkIndex ← okOr (Unsigned.ofNat? chunk.chunkIndex) .payoutPolicyOverflow
  let chunkCount ← okOr (Unsigned.ofNat? settled.decision.fanoutChunkCount) .payoutPolicyOverflow
  prepareCtvFanoutPrecommitment ctx.toCtvContext {
    blockHeight := rewardManifest.blockHeight
    chunkIndex
    chunkCount
    coinbaseValueSats := rewardManifest.coinbaseValueSats
    settlementMode := settled.decision.mode
    rewardManifestSha256Hex := ctx.sha256Hex (ctx.rewardManifestBytes rewardManifest)
    payoutPolicyManifestSha256Hex :=
      ctx.sha256Hex (ctx.payoutPolicyManifestBytes settled.payoutPolicyManifest)
    payouts := chunk.recipients.map (fanoutPayout settled.fanoutFeeRecipients) }

def PreparedCtvFanout.covenantEntitlement (prepared : PreparedCtvFanout) : WeightedEntitlement :=
  { recipientId := prepared.covenantRecipientId
    orderKey := prepared.covenantOrderKey
    p2mrProgramHex := prepared.covenantP2mrProgramHex
    weight := U64.toU128 prepared.covenantOutputValueSats }

def ctvSettlementCoinbaseEntitlements (decision : SettlementModeDecision)
    (preparedFanouts : List PreparedCtvFanout) : Except PrismError (List WeightedEntitlement) := do
  auditRequire (preparedFanouts.length = decision.fanoutChunks.length) "ctv_fanout_chunk_count"
  pure (decision.directRecipients.map (·.entitlement) ++ preparedFanouts.map (·.covenantEntitlement))

def findCoinbaseOutputVout (manifest : PayoutManifest) (prepared : PreparedCtvFanout) :
    Except PrismError U32 := do
  let output ← okOr (manifest.outputs.find? fun output =>
      output.recipientId = prepared.covenantRecipientId ∧ output.orderKey = prepared.covenantOrderKey ∧
        output.p2mrProgramHex = prepared.covenantP2mrProgramHex ∧
        output.amountSats = prepared.covenantOutputValueSats)
    (.auditMismatch "ctv_coinbase_output")
  okOr (Unsigned.ofNat? output.vout) (.auditMismatch "ctv_coinbase_output_vout")

def bindFanout (coinbaseManifest : PayoutManifest) (prepared : PreparedCtvFanout) :
    Except PrismError CtvFanoutManifest := do
  let parentVout ← findCoinbaseOutputVout coinbaseManifest prepared
  buildCtvFanoutManifestFromPrecommitment ctx.toCtvContext prepared.precommitment
    coinbaseManifest.coinbaseTxHex parentVout

def bindFanouts (coinbaseManifest : PayoutManifest) (preparedFanouts : List PreparedCtvFanout) :
    Except PrismError (Option CtvFanoutManifestSet) :=
  if preparedFanouts = [] then .ok none
  else do
    let manifests ← preparedFanouts.mapM (bindFanout ctx coinbaseManifest)
    let set ← buildCtvFanoutManifestSet ctx.toCtvContext manifests
    pure (some set)

def auditCommitmentLeaves (rewardManifest : PrismRewardManifest) (settled : SettledPayouts)
    (preparedFanouts : List PreparedCtvFanout) : List String :=
  prismAuditCommitmentLeafHex ctx rewardManifest settled.payoutPolicyManifest ::
    preparedFanouts.map (·.commitmentWitnessLeafHex)

def settlementCoinbaseRequest (input : CtvSettlementInput) (rewardManifest : PrismRewardManifest)
    (settled : SettledPayouts) (entitlements : List WeightedEntitlement) (root : String) :
    CoinbaseBuildRequest where
  blockHeight := rewardManifest.blockHeight
  coinbaseValueSats := rewardManifest.coinbaseValueSats
  entitlements
  witnessNonceHex := some root
  witnessMerkleLeavesHex := input.witnessMerkleLeavesHex
  coinbaseScriptSigSuffixHex := input.coinbaseScriptSigSuffixHex
  pinnedFirstOutput := pinnedFirstOutputForPolicy settled.payoutPolicyManifest

def signManifest (manifest : PayoutManifest) (signingKey : ManifestSigningKey ctx.toCrypto) :
    SignedPayoutManifest where
  manifest
  signature := signingKey.signature (ctx.payoutManifestBytes manifest)

def buildAuditBundleBodyWithCtvSettlementOptionsParallel (input : CtvSettlementInput)
    (coinbaseSigningKey ledgerSigningKey : ManifestSigningKey ctx.toCrypto) (parallelism : Parallelism) :
    Except PrismError AuditBundleBody := do
  require (¬eqIgnoreAsciiCase coinbaseSigningKey.publicKeyHex ledgerSigningKey.publicKeyHex)
    .ledgerAttestationKeyReuse
  let rewardManifest ← buildPrismRewardManifestParallel ctx.toCrypto input.shares input.foundBlock
    input.windowCut parallelism
  let settled ← settlePayouts input rewardManifest
  let preparedFanouts ← settled.decision.fanoutChunks.mapM (prepareFanout ctx rewardManifest settled)
  let leaves := auditCommitmentLeaves ctx rewardManifest settled preparedFanouts
  let root ← auditCommitmentRootHex ctx leaves
  let entitlements ← ctvSettlementCoinbaseEntitlements settled.decision preparedFanouts
  let coinbaseManifest ← (buildManifest ctx.toCrypto
    (settlementCoinbaseRequest input rewardManifest settled entitlements root)).mapError .builder
  let ctvFanoutManifestSet ← bindFanouts ctx coinbaseManifest preparedFanouts
  pure {
    schema := auditBundleSchemaForShares input.shares
    foundBlock := input.foundBlock
    priorBalances := input.priorBalances
    payoutPolicy := input.payoutPolicy
    coinbaseScriptSigSuffixHex := input.coinbaseScriptSigSuffixHex
    witnessMerkleLeavesHex := input.witnessMerkleLeavesHex
    auditCommitmentLeavesHex := leaves
    auditCommitmentRootHex := some root
    ledgerWindowAttestation :=
      buildLedgerWindowAttestation ctx rewardManifest input.priorBalances ledgerSigningKey
    rewardManifest
    payoutPolicyManifest := settled.payoutPolicyManifest
    settlementModeDecision := some settled.decision
    ctvFanoutFeePolicy := input.ctvFanoutFeePolicy
    ctvFanoutManifestSet
    signedCoinbaseManifest := signManifest ctx coinbaseManifest coinbaseSigningKey }

def buildAuditBundleBodyWithCtvSettlementOptions (input : CtvSettlementInput)
    (coinbaseSigningKey ledgerSigningKey : ManifestSigningKey ctx.toCrypto) :
    Except PrismError AuditBundleBody :=
  buildAuditBundleBodyWithCtvSettlementOptionsParallel ctx { input with windowCut := none }
    coinbaseSigningKey ledgerSigningKey .serial

end QbitPrism
