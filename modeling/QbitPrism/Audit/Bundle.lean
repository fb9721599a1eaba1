import Mathlib
import QbitPrism.Coinbase.Builder
import QbitPrism.Ctv.Manifest
import QbitPrism.Settlement.Fee
import QbitPrism.Window.Reward

/-!
# The audit bundle and its verifier

`verify_audit_bundle`: the window, the payouts and the coinbase are rebuilt from the
bundle's shares and compared with what the bundle says they are. The canonical JSON of
each artifact is a parameter.
-/
namespace QbitPrism
open MachineInt Checked SortBy ByteReader

structure AttestationPayload where
  schema : String
  blockHeight : U64
  coinbaseValueSats : U64
  anchorJobIssuedAtMs : I64
  networkDifficulty : U128
  shareSliceDigestHex : String
  priorBalancesDigestHex : String
  deriving DecidableEq

structure LedgerWindowAttestation extends AttestationPayload where
  signature : ManifestSignature
  deriving DecidableEq

structure AuditBundle where
  schema : String
  shares : List AcceptedShare
  foundBlock : FoundBlock
  priorBalances : List CarryForwardBalance
  payoutPolicy : PayoutPolicy
  coinbaseScriptSigSuffixHex : Option String
  witnessMerkleLeavesHex : List String
  auditCommitmentLeavesHex : List String
  auditCommitmentRootHex : Option String
  ledgerWindowAttestation : LedgerWindowAttestation
  rewardManifest : PrismRewardManifest
  payoutPolicyManifest : PayoutPolicyManifest
  settlementModeDecision : Option SettlementModeDecision
  ctvFanoutFeePolicy : Option FanoutFeeRatePolicy
  ctvFanoutManifestSet : Option CtvFanoutManifestSet
  signedCoinbaseManifest : SignedPayoutManifest
  deriving DecidableEq

structure AuditVerificationReport where
  schema : String
  blockHeight : U64
  coinbaseValueSats : U64
  rewardManifestSha256Hex : String
  payoutPolicyManifestSha256Hex : String
  prismAuditCommitmentLeafHex : String
  auditCommitmentRootHex : String
  coinbaseManifestSha256Hex : String
  auditBundleSha256Hex : String
  coinbaseTxid : String
  coinbaseWtxid : String
  coinbaseTxHex : String
  minOutputSats : U64
  coinbaseOutputPolicy : CoinbaseOutputPolicy
  onchainOutputCount : ℕ
  accruedAccountCount : ℕ

/-- The hash and signature functions and the canonical JSON of each artifact. -/
structure AuditContext extends CtvContext where
  rewardManifestBytes : PrismRewardManifest → List UInt8
  payoutPolicyManifestBytes : PayoutPolicyManifest → List UInt8
  payoutManifestBytes : PayoutManifest → List UInt8
  attestationBytes : AttestationPayload → List UInt8
  auditBundleBytes : AuditBundle → List UInt8

variable (ctx : AuditContext)

def auditRequire (c : Prop) [Decidable c] (artifact : String) : Except PrismError Unit :=
  require c (.auditMismatch artifact)

@[simp] theorem auditRequire_eq_ok {c : Prop} [Decidable c] {artifact : String} {u : Unit} :
    auditRequire c artifact = .ok u ↔ c := require_eq_ok

def auditBundleSchemaForShares (shares : List AcceptedShare) : String :=
  if ∃ share ∈ shares, share.creditPolicy.isSome then "qbit.prism.audit-bundle.v1.1"
  else "qbit.prism.audit-bundle.v1"

def verifyLedgerWindowAttestation (bundle : AuditBundle) (writerPublicKeyHex : String) :
    Except PrismError Unit := do
  let attestation := bundle.ledgerWindowAttestation
  auditRequire (attestation.schema = "qbit.prism.ledger-window-attestation.v1")
    "ledger_attestation_schema"
  auditRequire (attestation.anchorJobIssuedAtMs = bundle.foundBlock.anchorJobIssuedAtMs ∧
    attestation.networkDifficulty = bundle.foundBlock.networkDifficulty ∧
    attestation.blockHeight = bundle.foundBlock.blockHeight ∧
    attestation.coinbaseValueSats = bundle.foundBlock.coinbaseValueSats) "ledger_attestation_scope"
  auditRequire (attestation.shareSliceDigestHex = bundle.rewardManifest.shareSliceDigestHex)
    "ledger_attestation_share_digest"
  auditRequire (attestation.priorBalancesDigestHex =
    priorBalancesDigestHex ctx.toCrypto bundle.priorBalances) "ledger_attestation_prior_digest"
  auditRequire (eqIgnoreAsciiCase attestation.signature.publicKeyHex writerPublicKeyHex)
    "ledger_attestation_public_key"
  auditRequire (attestation.signature.algorithm = "ed25519") "ledger_attestation_signature"
  (ctx.verifyEd25519Message attestation.signature.publicKeyHex
    (ctx.attestationBytes attestation.toAttestationPayload)
    attestation.signature.signatureHex).mapError .builder

def prismAuditCommitmentLeafTag : String := "qbit.prism.audit.commitment.v1"

def prismAuditCommitmentLeafHex (rewardManifest : PrismRewardManifest)
    (payoutPolicyManifest : PayoutPolicyManifest) : String :=
  ctx.sha256Hex (Hex.utf8 prismAuditCommitmentLeafTag ++
    ((ctx.sha256 (ctx.rewardManifestBytes rewardManifest)).toList ++
      (ctx.sha256 (ctx.payoutPolicyManifestBytes payoutPolicyManifest)).toList))

def invalidCommitment (reason : String) : PrismError := .invalidAuditCommitment reason

def parseAuditCommitmentLeaf (x : String × ℕ) : Except PrismError (Bytes 32) := do
  let (raw, index) := x
  let decoded ← (Hex.decode raw).mapError fun error =>
    invalidCommitment s!"commitment leaf {index} is not hex: {error.text}"
  okOr (Bytes.ofList? 32 decoded)
    (invalidCommitment s!"commitment leaf {index} must be 32 bytes, got {decoded.length}")

def auditCommitmentRootHex (commitmentLeavesHex : List String) : Except PrismError String := do
  let leaves ← commitmentLeavesHex.zipIdx.mapM parseAuditCommitmentLeaf
  match leaves with
  | [] => .error (invalidCommitment "at least one commitment leaf is required")
  | first :: rest => pure (Hex.encode (ctx.merkleRoot first rest).toList)

def poolFeeFirstOutput (manifest : PayoutPolicyManifest) : Option PoolFeeManifest :=
  if manifest.coinbaseOutputPolicy = .poolFeeFirst then
    manifest.poolFee.filter fun poolFee => 0 < poolFee.amountSats.val
  else none

def pinnedFirstOutputForPolicy (manifest : PayoutPolicyManifest) : Option PinnedFirstOutput :=
  (poolFeeFirstOutput manifest).map (·.toPayoutIdentity)

def matchesPoolFee (poolFee : PoolFeeManifest) (identity : PayoutIdentity) : Prop :=
  identity.recipientId = poolFee.recipientId ∧ identity.orderKey = poolFee.orderKey ∧
    eqIgnoreAsciiCase identity.p2mrProgramHex poolFee.p2mrProgramHex

instance (poolFee : PoolFeeManifest) (identity : PayoutIdentity) :
    Decidable (matchesPoolFee poolFee identity) := by
  unfold matchesPoolFee
  infer_instance

def verifyFeeSettlement (poolFee : PoolFeeManifest) (decision : SettlementModeDecision) :
    Except PrismError Unit :=
  auditRequire ((∃ r ∈ decision.directRecipients, matchesPoolFee poolFee r.toPayoutIdentity) ∧
    ¬∃ chunk ∈ decision.fanoutChunks, ∃ r ∈ chunk.recipients, matchesPoolFee poolFee r.toPayoutIdentity)
    "coinbase_output_policy"

def verifyCoinbaseOutputPolicy (policyManifest : PayoutPolicyManifest)
    (decision : Option SettlementModeDecision) (coinbaseManifest : PayoutManifest) :
    Except PrismError Unit :=
  match poolFeeFirstOutput policyManifest with
  | none => .ok ()
  | some poolFee => do
    let first ← okOr coinbaseManifest.outputs.head? (.auditMismatch "coinbase_output_policy")
    auditRequire (first.vout = 0 ∧ matchesPoolFee poolFee first.toPayoutIdentity ∧
      first.amountSats = poolFee.amountSats) "coinbase_output_policy"
    match decision with
    | none => pure ()
    | some decision => verifyFeeSettlement poolFee decision

def settlementRecipientsFromEntitlements (entitlements : List WeightedEntitlement) :
    Except PrismError (List SettlementRecipient) :=
  entitlements.mapM fun entitlement => do
    let amountSats ← okOr (Unsigned.ofNat? entitlement.weight.val) .payoutPolicyOverflow
    pure { entitlement.toPayoutIdentity with amountSats }

def settlementRecipientCmp : SettlementRecipient → SettlementRecipient → Ordering :=
  compareLex (fun a b => a.toPayoutIdentity.canonicalCmp b.toPayoutIdentity)
    (compareOn (·.amountSats.val))

def SettlementRecipient.entitlement (recipient : SettlementRecipient) : WeightedEntitlement :=
  { recipient.toPayoutIdentity with weight := U64.toU128 recipient.amountSats }

def CtvFanoutManifest.covenantEntitlement (manifest : CtvFanoutManifest) : WeightedEntitlement :=
  { recipientId := s!"ctv-fanout-{manifest.precommitment.chunkIndex.val}"
    orderKey := "ctv-fanout-" ++ padded manifest.precommitment.chunkIndex.val
    p2mrProgramHex := manifest.precommitment.p2mrProgramHex
    weight := U64.toU128 manifest.covenantOutputValueSats }

/-- The amount a fanout output covers: before its fee, when it states one. -/
def CtvFanoutOutput.coveredSats (output : CtvFanoutOutput) : U64 :=
  if output.grossAmountSats = 0 then output.amountSats else output.grossAmountSats

def CtvFanoutOutput.coveredRecipient (output : CtvFanoutOutput) : SettlementRecipient :=
  { output.toPayoutIdentity with amountSats := output.coveredSats }

def settlementManifests (decision : SettlementModeDecision) (fanoutSet : Option CtvFanoutManifestSet)
    (coinbaseManifest : PayoutManifest) (auditCommitmentLeavesHex : List String) :
    Except PrismError (List CtvFanoutManifest) :=
  if decision.fanoutChunkCount = 0 then do
    auditRequire (fanoutSet = none) "unexpected_ctv_fanout_manifest_set"
    pure []
  else do
    let fanoutSet ← okOr fanoutSet (.auditMismatch "ctv_fanout_manifest_set")
    verifyCtvFanoutManifestSet ctx.toCtvContext fanoutSet
    auditRequire (fanoutSet.parentCoinbaseTxid = coinbaseManifest.coinbaseTxid)
      "ctv_fanout_parent_coinbase"
    auditRequire (fanoutSet.settlementMode = decision.mode) "ctv_fanout_settlement_mode"
    auditRequire (fanoutSet.fanoutCount.val = decision.fanoutChunkCount) "ctv_fanout_chunk_count"
    let _ ← fanoutSet.manifests.mapM fun manifest => do
      auditRequire (manifest.parentCoinbaseTxHex = coinbaseManifest.coinbaseTxHex)
        "ctv_fanout_parent_coinbase_tx"
      verifyCtvFanoutManifestCommitmentLeaf ctx.toCtvContext manifest auditCommitmentLeavesHex
    pure fanoutSet.manifests

def verifyCtvSettlementBundle (decision : SettlementModeDecision)
    (fanoutSet : Option CtvFanoutManifestSet) (policyManifest : PayoutPolicyManifest)
    (coinbaseManifest : PayoutManifest) (auditCommitmentLeavesHex : List String) :
    Except PrismError (List WeightedEntitlement) := do
  let manifests ← settlementManifests ctx decision fanoutSet coinbaseManifest auditCommitmentLeavesHex
  let covered := decision.directRecipients ++
    manifests.flatMap fun manifest => manifest.precommitment.outputs.map (·.coveredRecipient)
  let expected ← settlementRecipientsFromEntitlements policyManifest.onchainEntitlements
  auditRequire (sortBy settlementRecipientCmp covered = sortBy settlementRecipientCmp expected)
    "ctv_settlement_coverage"
  pure (decision.directRecipients.map (·.entitlement) ++ manifests.map (·.covenantEntitlement))

def hexVecEqIgnoreAsciiCase (left right : List String) : Prop :=
  List.Forall₂ eqIgnoreAsciiCase left right

instance (left right : List String) : Decidable (hexVecEqIgnoreAsciiCase left right) := by
  unfold hexVecEqIgnoreAsciiCase
  infer_instance

def expectedPolicyManifest (bundle : AuditBundle) (rewardManifest : PrismRewardManifest) :
    Except PrismError PayoutPolicyManifest := do
  let policyManifest ← applyPayoutPolicy rewardManifest bundle.priorBalances bundle.payoutPolicy
  match bundle.settlementModeDecision, bundle.ctvFanoutFeePolicy with
  | some decision, some feePolicy => applyCtvFanoutFeeAccounting policyManifest decision feePolicy
  | _, _ => pure policyManifest

/-- The entitlements of the coinbase and the commitment leaves after the first. -/
def expectedCoinbaseEntitlements (bundle : AuditBundle) (policyManifest : PayoutPolicyManifest) :
    Except PrismError (List WeightedEntitlement × List String) :=
  match bundle.settlementModeDecision with
  | none => .ok (policyManifest.onchainEntitlements, [])
  | some decision => do
    let entitlements ← verifyCtvSettlementBundle ctx decision bundle.ctvFanoutManifestSet
      policyManifest bundle.signedCoinbaseManifest.manifest bundle.auditCommitmentLeavesHex
    let manifests := bundle.ctvFanoutManifestSet.elim [] (·.manifests)
    pure (entitlements, manifests.map (·.commitmentWitnessLeafHex))

def auditVerificationReport (bundle : AuditBundle) (coinbaseManifest : PayoutManifest) :
    Except PrismError AuditVerificationReport := do
  let root ← auditCommitmentRootHex ctx bundle.auditCommitmentLeavesHex
  pure {
    schema := "qbit.prism.audit-verification-report.v1"
    blockHeight := bundle.foundBlock.blockHeight
    coinbaseValueSats := bundle.foundBlock.coinbaseValueSats
    rewardManifestSha256Hex := ctx.sha256Hex (ctx.rewardManifestBytes bundle.rewardManifest)
    payoutPolicyManifestSha256Hex :=
      ctx.sha256Hex (ctx.payoutPolicyManifestBytes bundle.payoutPolicyManifest)
    prismAuditCommitmentLeafHex :=
      prismAuditCommitmentLeafHex ctx bundle.rewardManifest bundle.payoutPolicyManifest
    auditCommitmentRootHex := root
    coinbaseManifestSha256Hex := ctx.sha256Hex (ctx.payoutManifestBytes coinbaseManifest)
    auditBundleSha256Hex := ctx.sha256Hex (ctx.auditBundleBytes bundle)
    coinbaseTxid := coinbaseManifest.coinbaseTxid
    coinbaseWtxid := coinbaseManifest.coinbaseWtxid
    coinbaseTxHex := coinbaseManifest.coinbaseTxHex
    minOutputSats := bundle.payoutPolicyManifest.minOutputSats
    coinbaseOutputPolicy := bundle.payoutPolicyManifest.coinbaseOutputPolicy
    onchainOutputCount := coinbaseManifest.outputs.length
    accruedAccountCount :=
      (bundle.payoutPolicyManifest.accounts.filter fun a => a.action = .accrued).length }

def verifyAuditBundle (bundle : AuditBundle) (ledgerWriterPublicKeyHex : String) :
    Except PrismError AuditVerificationReport := do
  auditRequire (bundle.schema = auditBundleSchemaForShares bundle.shares) "schema"
  verifyLedgerWindowAttestation ctx bundle ledgerWriterPublicKeyHex
  (verifySignedManifest ctx.toCrypto ctx.payoutManifestBytes bundle.signedCoinbaseManifest).mapError
    .builder
  let rewardManifest ← buildPrismRewardManifestWithCut ctx.toCrypto bundle.shares bundle.foundBlock
    bundle.rewardManifest.cut
  auditRequire (rewardManifest = bundle.rewardManifest) "reward_manifest"
  let policyManifest ← expectedPolicyManifest bundle rewardManifest
  auditRequire (policyManifest = bundle.payoutPolicyManifest) "payout_policy_manifest"
  verifyCoinbaseOutputPolicy policyManifest bundle.settlementModeDecision
    bundle.signedCoinbaseManifest.manifest
  let leaf := prismAuditCommitmentLeafHex ctx rewardManifest policyManifest
  let (entitlements, fanoutLeaves) ← expectedCoinbaseEntitlements ctx bundle policyManifest
  let leaves := leaf :: fanoutLeaves
  auditRequire (hexVecEqIgnoreAsciiCase bundle.auditCommitmentLeavesHex leaves) "audit_commitment_leaves"
  let root ← auditCommitmentRootHex ctx leaves
  auditRequire (∃ r ∈ bundle.auditCommitmentRootHex, eqIgnoreAsciiCase r root) "audit_commitment_root"
  let coinbaseManifest ← (buildManifest ctx.toCrypto {
    blockHeight := rewardManifest.blockHeight
    coinbaseValueSats := rewardManifest.coinbaseValueSats
    entitlements
    witnessNonceHex := some root
    witnessMerkleLeavesHex := bundle.witnessMerkleLeavesHex
    coinbaseScriptSigSuffixHex := bundle.coinbaseScriptSigSuffixHex
    pinnedFirstOutput := pinnedFirstOutputForPolicy policyManifest }).mapError .builder
  auditRequire (coinbaseManifest = bundle.signedCoinbaseManifest.manifest) "coinbase_manifest"
  auditVerificationReport ctx bundle coinbaseManifest

end QbitPrism
