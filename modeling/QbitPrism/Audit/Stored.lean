import Mathlib
import QbitPrism.Audit.Bundle
import QbitPrism.Lib.Fields

/-!
# The audit body and its stored form

A bundle in two parts, its body and its window, and the JSON objects they are stored as. The
stored body keeps the reward manifest's header only; the counted window is folded again from
the shares.
-/
namespace QbitPrism
open MachineInt Checked Fields

structure AuditBundleBody where
  schema : String
  foundBlock : FoundBlock
  priorBalances : List CarryForwardBalance
  payoutPolicy : PayoutPolicy
  coinbaseScriptSigSuffixHex : Option String
  witnessMerkleLeavesHex : List String
  auditCommitmentLeavesHex : List String
  auditCommitmentRootHex : Option String
  ledgerWindowAttestation : LedgerWindowAttestation
  rewardManifest : PrismRewardManifest
  payoutPolicyManifest : PayoutPolicyManifest
  settlementModeDecision : Option SettlementModeDecision
  ctvFanoutFeePolicy : Option FanoutFeeRatePolicy
  ctvFanoutManifestSet : Option CtvFanoutManifestSet
  signedCoinbaseManifest : SignedPayoutManifest
  deriving DecidableEq

def AuditBundleBody.intoBundle (body : AuditBundleBody) (shares : List AcceptedShare) :
    AuditBundle where
  schema := body.schema
  shares
  foundBlock := body.foundBlock
  priorBalances := body.priorBalances
  payoutPolicy := body.payoutPolicy
  coinbaseScriptSigSuffixHex := body.coinbaseScriptSigSuffixHex
  witnessMerkleLeavesHex := body.witnessMerkleLeavesHex
  auditCommitmentLeavesHex := body.auditCommitmentLeavesHex
  auditCommitmentRootHex := body.auditCommitmentRootHex
  ledgerWindowAttestation := body.ledgerWindowAttestation
  rewardManifest := body.rewardManifest
  payoutPolicyManifest := body.payoutPolicyManifest
  settlementModeDecision := body.settlementModeDecision
  ctvFanoutFeePolicy := body.ctvFanoutFeePolicy
  ctvFanoutManifestSet := body.ctvFanoutManifestSet
  signedCoinbaseManifest := body.signedCoinbaseManifest

def AuditBundle.intoParts (bundle : AuditBundle) : AuditBundleBody × List AcceptedShare :=
  ({ schema := bundle.schema
     foundBlock := bundle.foundBlock
     priorBalances := bundle.priorBalances
     payoutPolicy := bundle.payoutPolicy
     coinbaseScriptSigSuffixHex := bundle.coinbaseScriptSigSuffixHex
     witnessMerkleLeavesHex := bundle.witnessMerkleLeavesHex
     auditCommitmentLeavesHex := bundle.auditCommitmentLeavesHex
     auditCommitmentRootHex := bundle.auditCommitmentRootHex
     ledgerWindowAttestation := bundle.ledgerWindowAttestation
     rewardManifest := bundle.rewardManifest
     payoutPolicyManifest := bundle.payoutPolicyManifest
     settlementModeDecision := bundle.settlementModeDecision
     ctvFanoutFeePolicy := bundle.ctvFanoutFeePolicy
     ctvFanoutManifestSet := bundle.ctvFanoutManifestSet
     signedCoinbaseManifest := bundle.signedCoinbaseManifest }, bundle.shares)

def verifyAuditParts (ctx : AuditContext) (body : AuditBundleBody) (shares : List AcceptedShare)
    (ledgerWriterPublicKeyHex : String) : Except PrismError AuditVerificationReport :=
  verifyAuditBundle ctx (body.intoBundle shares) ledgerWriterPublicKeyHex

def canonicalAuditBundleBytesFromParts (ctx : AuditContext) (body : AuditBundleBody)
    (shares : List AcceptedShare) : List UInt8 :=
  ctx.auditBundleBytes (body.intoBundle shares)

structure PrismRewardManifestHeader where
  schema : String
  blockHeight : U64
  coinbaseValueSats : U64
  networkDifficulty : U128
  windowMultiplier : U128
  requestedWindowWeight : U128
  countedWindowWeight : U128
  anchorJobIssuedAtMs : I64
  anchorShareSeq : U64
  newestShareSeq : U64
  oldestShareSeq : U64
  cut : Option WindowCut
  includedShareCount : ℕ
  shareSliceDigestHex : String
  entitlements : List WeightedEntitlement
  deriving DecidableEq

def PrismRewardManifest.intoParts (manifest : PrismRewardManifest) :
    PrismRewardManifestHeader × List CountedShare :=
  ({ schema := manifest.schema
     blockHeight := manifest.blockHeight
     coinbaseValueSats := manifest.coinbaseValueSats
     networkDifficulty := manifest.networkDifficulty
     windowMultiplier := manifest.windowMultiplier
     requestedWindowWeight := manifest.requestedWindowWeight
     countedWindowWeight := manifest.countedWindowWeight
     anchorJobIssuedAtMs := manifest.anchorJobIssuedAtMs
     anchorShareSeq := manifest.anchorShareSeq
     newestShareSeq := manifest.newestShareSeq
     oldestShareSeq := manifest.oldestShareSeq
     cut := manifest.cut
     includedShareCount := manifest.includedShareCount
     shareSliceDigestHex := manifest.shareSliceDigestHex
     entitlements := manifest.entitlements }, manifest.shares)

def PrismRewardManifestHeader.intoManifest (header : PrismRewardManifestHeader)
    (shares : List CountedShare) : PrismRewardManifest where
  schema := header.schema
  blockHeight := header.blockHeight
  coinbaseValueSats := header.coinbaseValueSats
  networkDifficulty := header.networkDifficulty
  windowMultiplier := header.windowMultiplier
  requestedWindowWeight := header.requestedWindowWeight
  countedWindowWeight := header.countedWindowWeight
  anchorJobIssuedAtMs := header.anchorJobIssuedAtMs
  anchorShareSeq := header.anchorShareSeq
  newestShareSeq := header.newestShareSeq
  oldestShareSeq := header.oldestShareSeq
  cut := header.cut
  includedShareCount := header.includedShareCount
  shareSliceDigestHex := header.shareSliceDigestHex
  shares
  entitlements := header.entitlements

def restoreRewardManifest (crypto : Crypto) (header : PrismRewardManifestHeader)
    (shares : List AcceptedShare) (foundBlock : FoundBlock) :
    Except PrismError PrismRewardManifest := do
  let manifest ← buildPrismRewardManifestWithCut crypto shares foundBlock header.cut
  let (rebuilt, window) := manifest.intoParts
  auditRequire (rebuilt = header) "reward_manifest"
  pure (rebuilt.intoManifest window)

theorem restoreRewardManifest_intoParts {crypto : Crypto} {shares : List AcceptedShare}
    {foundBlock : FoundBlock} {manifest : PrismRewardManifest}
    (h : buildPrismRewardManifestWithCut crypto shares foundBlock manifest.cut = .ok manifest) :
    restoreRewardManifest crypto manifest.intoParts.1 shares foundBlock = .ok manifest := by
  have hcut : manifest.intoParts.1.cut = manifest.cut := rfl
  rw [restoreRewardManifest, hcut, h]
  simp only [ok_bind, auditRequire, require_of]
  rfl

/-- How the values inside the stored objects are written; no code here looks into them. -/
structure AuditCodecs (L : Type*) where
  string : Codec L String
  strings : Codec L (List String)
  optionalString : Codec L (Option String)
  u64 : Codec L U64
  u128 : Codec L U128
  i64 : Codec L I64
  usize : Codec L ℕ
  cut : Codec L (Option WindowCut)
  acceptedShares : Codec L (List AcceptedShare)
  countedShares : Codec L (List CountedShare)
  entitlements : Codec L (List WeightedEntitlement)
  foundBlock : Codec L FoundBlock
  priorBalances : Codec L (List CarryForwardBalance)
  payoutPolicy : Codec L PayoutPolicy
  attestation : Codec L LedgerWindowAttestation
  accounts : Codec L (List PayoutPolicyAccount)
  payoutPolicyManifest : Codec L PayoutPolicyManifest
  settlementModeDecision : Codec L (Option SettlementModeDecision)
  fanoutFeePolicy : Codec L (Option FanoutFeeRatePolicy)
  fanoutManifestSet : Codec L (Option CtvFanoutManifestSet)
  signedManifest : Codec L SignedPayoutManifest

variable {L : Type*} (json : AuditCodecs L)

def PrismRewardManifestHeader.fieldsBefore (header : PrismRewardManifestHeader) : Object L :=
  [("schema", json.string.toValue header.schema),
    ("block_height", json.u64.toValue header.blockHeight),
    ("coinbase_value_sats", json.u64.toValue header.coinbaseValueSats),
    ("network_difficulty", json.u128.toValue header.networkDifficulty),
    ("window_multiplier", json.u128.toValue header.windowMultiplier),
    ("requested_window_weight", json.u128.toValue header.requestedWindowWeight),
    ("counted_window_weight", json.u128.toValue header.countedWindowWeight),
    ("anchor_job_issued_at_ms", json.i64.toValue header.anchorJobIssuedAtMs),
    ("anchor_share_seq", json.u64.toValue header.anchorShareSeq),
    ("newest_share_seq", json.u64.toValue header.newestShareSeq),
    ("oldest_share_seq", json.u64.toValue header.oldestShareSeq)] ++
  (json.cut.skipped none "cut" header.cut ++
    [("included_share_count", json.usize.toValue header.includedShareCount),
      ("share_slice_digest_hex", json.string.toValue header.shareSliceDigestHex)])

def PrismRewardManifestHeader.toObject (header : PrismRewardManifestHeader) : Object L :=
  header.fieldsBefore json ++ [("entitlements", json.entitlements.toValue header.entitlements)]

def PrismRewardManifest.toObject (manifest : PrismRewardManifest) : Object L :=
  manifest.intoParts.1.fieldsBefore json ++
    [("shares", json.countedShares.toValue manifest.shares),
      ("entitlements", json.entitlements.toValue manifest.entitlements)]

def headerFields : List String :=
  ["schema", "block_height", "coinbase_value_sats", "network_difficulty", "window_multiplier",
    "requested_window_weight", "counted_window_weight", "anchor_job_issued_at_ms",
    "anchor_share_seq", "newest_share_seq", "oldest_share_seq", "cut", "included_share_count",
    "share_slice_digest_hex", "entitlements"]

def PrismRewardManifestHeader.fromFields (o : Object L) :
    Except String PrismRewardManifestHeader := do
  let schema ← json.string.field "schema" o
  let blockHeight ← json.u64.field "block_height" o
  let coinbaseValueSats ← json.u64.field "coinbase_value_sats" o
  let networkDifficulty ← json.u128.field "network_difficulty" o
  let windowMultiplier ← json.u128.field "window_multiplier" o
  let requestedWindowWeight ← json.u128.field "requested_window_weight" o
  let countedWindowWeight ← json.u128.field "counted_window_weight" o
  let anchorJobIssuedAtMs ← json.i64.field "anchor_job_issued_at_ms" o
  let anchorShareSeq ← json.u64.field "anchor_share_seq" o
  let newestShareSeq ← json.u64.field "newest_share_seq" o
  let oldestShareSeq ← json.u64.field "oldest_share_seq" o
  let cut ← json.cut.fieldOr none "cut" o
  let includedShareCount ← json.usize.field "included_share_count" o
  let shareSliceDigestHex ← json.string.field "share_slice_digest_hex" o
  let entitlements ← json.entitlements.field "entitlements" o
  pure ⟨schema, blockHeight, coinbaseValueSats, networkDifficulty, windowMultiplier,
    requestedWindowWeight, countedWindowWeight, anchorJobIssuedAtMs, anchorShareSeq,
    newestShareSeq, oldestShareSeq, cut, includedShareCount, shareSliceDigestHex, entitlements⟩

/-- The header denies unknown fields, so a full manifest is not read as one. -/
def PrismRewardManifestHeader.fromObject (o : Object L) :
    Except String PrismRewardManifestHeader := do
  require (∀ field ∈ o, field.1 ∈ headerFields) "unknown field"
  PrismRewardManifestHeader.fromFields json o

def PrismRewardManifest.fromObject (o : Object L) : Except String PrismRewardManifest := do
  let header ← PrismRewardManifestHeader.fromFields json o
  let shares ← json.countedShares.field "shares" o
  pure (header.intoManifest shares)

theorem PrismRewardManifestHeader.fromFields_fieldsBefore (header : PrismRewardManifestHeader) (rest : Object L)
    (hrest : rest.get? "entitlements" = some (json.entitlements.toValue header.entitlements))
    (hcut : rest.get? "cut" = none) :
    PrismRewardManifestHeader.fromFields json (header.fieldsBefore json ++ rest) = .ok header := by
  have hcutField : json.cut.fieldOr none "cut" (header.fieldsBefore json ++ rest) =
      .ok header.cut := by
    apply Codec.fieldOr_of_get?
    simp [fieldsBefore, Object.get?_append, Object.get?_cons, hcut]
  simp only [fromFields, hcutField, ok_bind]
  simp [Codec.field, fieldsBefore, Object.get?_append, Object.get?_cons,
    Codec.skipped_get?_of_ne, Codec.fromValue_toValue, hrest]

theorem PrismRewardManifest.fromObject_toObject (manifest : PrismRewardManifest) :
    PrismRewardManifest.fromObject json (manifest.toObject json) = .ok manifest := by
  have hheader : PrismRewardManifestHeader.fromFields json (manifest.toObject json) =
      .ok manifest.intoParts.1 := by
    apply PrismRewardManifestHeader.fromFields_fieldsBefore
    · simp [Object.get?_cons, intoParts]
    · simp [Object.get?_cons]
  have hshares : json.countedShares.field "shares" (manifest.toObject json) = .ok manifest.shares := by
    apply Codec.field_of_get?
    simp [toObject, PrismRewardManifestHeader.fieldsBefore, Object.get?_append, Object.get?_cons,
      Codec.skipped_get?_of_ne]
  rw [fromObject, hheader, ok_bind, hshares, ok_bind]
  rfl

theorem PrismRewardManifest.toObject_remove_shares (manifest : PrismRewardManifest) :
    (manifest.toObject json).remove "shares" = manifest.intoParts.1.toObject json := by
  simp only [toObject, Object.remove, PrismRewardManifestHeader.toObject,
    PrismRewardManifestHeader.fieldsBefore, intoParts, List.filter_append]
  congr 1
  congr 1
  congr 1
  apply List.filter_eq_self.mpr
  intro field hfield
  rw [Codec.skipped_key hfield]
  rfl

theorem PrismRewardManifestHeader.fromObject_toObject (header : PrismRewardManifestHeader) :
    PrismRewardManifestHeader.fromObject json (header.toObject json) = .ok header := by
  have hknown : ∀ field ∈ header.toObject json, field.1 ∈ headerFields := by
    unfold toObject fieldsBefore Codec.skipped
    split_ifs <;> simp [headerFields]
  rw [fromObject, require_of hknown, ok_bind]
  apply fromFields_fieldsBefore
  · simp
  · simp [Object.get?_cons]

def AuditBundleBody.toObject (body : AuditBundleBody) : Object L :=
  [("schema", json.string.toValue body.schema),
    ("found_block", json.foundBlock.toValue body.foundBlock),
    ("prior_balances", json.priorBalances.toValue body.priorBalances),
    ("payout_policy", json.payoutPolicy.toValue body.payoutPolicy)] ++
  (json.optionalString.skipped none "coinbase_script_sig_suffix_hex" body.coinbaseScriptSigSuffixHex ++
  (json.strings.skipped [] "witness_merkle_leaves_hex" body.witnessMerkleLeavesHex ++
  (json.strings.skipped [] "audit_commitment_leaves_hex" body.auditCommitmentLeavesHex ++
  (json.optionalString.skipped none "audit_commitment_root_hex" body.auditCommitmentRootHex ++
  ([("ledger_window_attestation", json.attestation.toValue body.ledgerWindowAttestation),
    ("reward_manifest", .object (body.rewardManifest.toObject json)),
    ("payout_policy_manifest", json.payoutPolicyManifest.toValue body.payoutPolicyManifest)] ++
  (json.settlementModeDecision.skipped none "settlement_mode_decision" body.settlementModeDecision ++
  (json.fanoutFeePolicy.skipped none "ctv_fanout_fee_policy" body.ctvFanoutFeePolicy ++
  (json.fanoutManifestSet.skipped none "ctv_fanout_manifest_set" body.ctvFanoutManifestSet ++
  [("signed_coinbase_manifest", json.signedManifest.toValue body.signedCoinbaseManifest)]))))))))

def rewardManifestField (o : Object L) : Except String PrismRewardManifest :=
  match o.get? "reward_manifest" with
  | some (.object fields) => PrismRewardManifest.fromObject json fields
  | some (.leaf _) => .error "invalid type"
  | none => .error "missing field reward_manifest"

/-- The derived reader of a bundle, which knows its optional fields' defaults. -/
def AuditBundle.fromObject (o : Object L) : Except String AuditBundle := do
  let schema ← json.string.field "schema" o
  let shares ← json.acceptedShares.field "shares" o
  let foundBlock ← json.foundBlock.field "found_block" o
  let priorBalances ← json.priorBalances.field "prior_balances" o
  let payoutPolicy ← json.payoutPolicy.field "payout_policy" o
  let suffixHex ← json.optionalString.fieldOr none "coinbase_script_sig_suffix_hex" o
  let witnessLeaves ← json.strings.fieldOr [] "witness_merkle_leaves_hex" o
  let commitmentLeaves ← json.strings.fieldOr [] "audit_commitment_leaves_hex" o
  let commitmentRoot ← json.optionalString.fieldOr none "audit_commitment_root_hex" o
  let attestation ← json.attestation.field "ledger_window_attestation" o
  let rewardManifest ← rewardManifestField json o
  let payoutPolicyManifest ← json.payoutPolicyManifest.field "payout_policy_manifest" o
  let decision ← json.settlementModeDecision.fieldOr none "settlement_mode_decision" o
  let feePolicy ← json.fanoutFeePolicy.fieldOr none "ctv_fanout_fee_policy" o
  let manifestSet ← json.fanoutManifestSet.fieldOr none "ctv_fanout_manifest_set" o
  let signedManifest ← json.signedManifest.field "signed_coinbase_manifest" o
  pure ⟨schema, shares, foundBlock, priorBalances, payoutPolicy, suffixHex, witnessLeaves,
    commitmentLeaves, commitmentRoot, attestation, rewardManifest, payoutPolicyManifest, decision,
    feePolicy, manifestSet, signedManifest⟩

theorem AuditBundle.fromObject_of_get? (body : AuditBundleBody) {shares : List AcceptedShare}
    {o : Object L} (hbody : ∀ key, key ≠ "shares" → o.get? key = (body.toObject json).get? key)
    (hshares : o.get? "shares" = some (json.acceptedShares.toValue shares)) :
    AuditBundle.fromObject json o = .ok (body.intoBundle shares) := by
  -- A field left out at its default is read back as its default.
  obtain ⟨hsuffix, hwitness, hleaves, hroot, hdecision, hfee, hset⟩ :
      json.optionalString.fieldOr none "coinbase_script_sig_suffix_hex" o =
        .ok body.coinbaseScriptSigSuffixHex ∧
      json.strings.fieldOr [] "witness_merkle_leaves_hex" o = .ok body.witnessMerkleLeavesHex ∧
      json.strings.fieldOr [] "audit_commitment_leaves_hex" o = .ok body.auditCommitmentLeavesHex ∧
      json.optionalString.fieldOr none "audit_commitment_root_hex" o =
        .ok body.auditCommitmentRootHex ∧
      json.settlementModeDecision.fieldOr none "settlement_mode_decision" o =
        .ok body.settlementModeDecision ∧
      json.fanoutFeePolicy.fieldOr none "ctv_fanout_fee_policy" o = .ok body.ctvFanoutFeePolicy ∧
      json.fanoutManifestSet.fieldOr none "ctv_fanout_manifest_set" o =
        .ok body.ctvFanoutManifestSet := by
    refine ⟨?_, ?_, ?_, ?_, ?_, ?_, ?_⟩
    all_goals
      apply Codec.fieldOr_of_get?
      simp [hbody, AuditBundleBody.toObject, Object.get?_append, Object.get?_cons, Codec.skipped_get?_of_ne]
  have hmanifest : rewardManifestField json o = .ok body.rewardManifest := by
    have hget : o.get? "reward_manifest" = some (.object (body.rewardManifest.toObject json)) := by
      simp [hbody, AuditBundleBody.toObject, Object.get?_append, Object.get?_cons, Codec.skipped_get?_of_ne]
    rw [rewardManifestField, hget]
    exact PrismRewardManifest.fromObject_toObject json body.rewardManifest
  simp only [fromObject, hsuffix, hwitness, hleaves, hroot, hdecision, hfee, hset, hmanifest, ok_bind]
  simp [Codec.field, hbody, hshares, AuditBundleBody.toObject, Object.get?_append, Object.get?_cons,
    Codec.skipped_get?_of_ne, Codec.fromValue_toValue, AuditBundleBody.intoBundle]

end QbitPrism
