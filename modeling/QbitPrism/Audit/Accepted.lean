import Mathlib
import QbitPrism.Audit.Bundle
import QbitPrism.Coinbase.Outputs
import QbitPrism.Ctv.Accepted
import QbitPrism.Payout.Conservation

/-!
# What an accepted bundle establishes

The stages of `verify_audit_bundle` for a bundle with a settlement decision: the accounts,
the fanout manifests, the coverage of the accounts by direct recipients and fanout outputs,
and the coinbase built for them.
-/
namespace QbitPrism
open MachineInt Checked SortBy ByteReader List

def AuditBundle.manifests (bundle : AuditBundle) : List CtvFanoutManifest :=
  bundle.ctvFanoutManifestSet.elim [] (·.manifests)

def AuditBundle.fanoutOutputs (bundle : AuditBundle) : List CtvFanoutOutput :=
  bundle.manifests.flatMap (·.precommitment.outputs)

def PayoutPolicyManifest.onchainAccounts (m : PayoutPolicyManifest) : List PayoutPolicyAccount :=
  m.accounts.filter fun a => 0 < a.onchainAmountSats.val

/-- What the payout policy and the fee accounting establish of the accounts. -/
structure AcceptedAccounts (m : PayoutPolicyManifest) (coinbaseValueSats : U64) : Prop where
  programs : (m.accounts.map (·.programKey)).Nodup
  total_eq : (m.onchainAccounts.map fun a => a.onchainAmountSats.val).sum = coinbaseValueSats.val
  entitlements : m.onchainEntitlements.Perm (m.onchainAccounts.map (·.entitlement))

theorem onchainAccounts_map_entitlement (m : PayoutPolicyManifest) :
    m.onchainAccounts.map (·.entitlement) =
      (m.accounts.map (·.entitlement)).filter fun e => 0 < e.weight.val := by
  rw [PayoutPolicyManifest.onchainAccounts, filter_map]
  rfl

variable {r : PrismRewardManifest} {m : PayoutPolicyManifest} {bundle : AuditBundle}
  {decision : SettlementModeDecision} {fanoutSet : Option CtvFanoutManifestSet} {coinbase : PayoutManifest}
  {leaves : List String} {entitlements : List WeightedEntitlement}

theorem PolicyRun.acceptedAccounts {priors : List CarryForwardBalance} {policy : PayoutPolicy}
    (run : PolicyRun r priors policy m) :
    AcceptedAccounts m r.coinbaseValueSats where
  programs := run.all_programs_nodup
  total_eq := by
    rw [← run.onchain_total, ← onchainEntitlements_sum m.accounts, onchainEntitlements, map_map]
    rfl
  entitlements := run.entitlements_perm

theorem expectedPolicyManifest_eq_ok (h : expectedPolicyManifest bundle r = .ok m) :
    AcceptedAccounts m r.coinbaseValueSats := by
  simp only [expectedPolicyManifest, bind_eq_ok] at h
  obtain ⟨m₀, hm₀, h⟩ := h
  obtain ⟨run⟩ := applyPayoutPolicy_eq_ok hm₀
  have hrun := run.acceptedAccounts
  split at h
  · -- The fee accounting keeps programs, amounts and entitlements.
    obtain ⟨hm, hmap⟩ := applyCtvFanoutFeeAccounting_eq_ok h
    have hentitlement : m.onchainAccounts.map (·.entitlement) = m₀.onchainAccounts.map (·.entitlement) := by
      rw [onchainAccounts_map_entitlement, onchainAccounts_map_entitlement, hmap (·.entitlement) fun _ _ => rfl]
    have hprograms := hmap (·.programKey) fun _ _ => rfl
    refine ⟨hprograms ▸ hrun.programs, ?_, ?_⟩
    · have hamounts := congrArg (List.map fun e : WeightedEntitlement => e.weight.val) hentitlement
      rw [map_map, map_map] at hamounts
      exact (congrArg List.sum hamounts).trans hrun.total_eq
    · rw [hentitlement, hm]
      exact hrun.entitlements
  · cases h
    exact hrun

/-- What the bundle's manifests satisfy, given the coinbase they spend. -/
structure AcceptedFanouts (manifests : List CtvFanoutManifest) (coinbaseTxHex : String) : Prop where
  accepted : ∀ manifest ∈ manifests, AcceptedManifest manifest
  distinct : (manifests.map (·.parentCoinbaseVout)).Nodup
  parent : ∀ manifest ∈ manifests, manifest.parentCoinbaseTxHex = coinbaseTxHex

variable {ctx : AuditContext}

theorem settlementManifests_eq_ok {manifests : List CtvFanoutManifest}
    (h : settlementManifests ctx decision fanoutSet coinbase leaves = .ok manifests) :
    manifests = fanoutSet.elim [] (·.manifests) ∧ AcceptedFanouts manifests coinbase.coinbaseTxHex := by
  unfold settlementManifests at h
  split_ifs at h
  · simp only [bind_eq_ok, auditRequire_eq_ok, pure_eq_ok] at h
    obtain ⟨-, rfl, rfl⟩ := h
    exact ⟨rfl, by simp, nodup_nil, by simp⟩
  · simp only [bind_eq_ok, okOr_eq_ok, auditRequire_eq_ok, pure_eq_ok] at h
    obtain ⟨set, rfl, ⟨⟩, hset, -, -, -, -, -, -, units, hunits, rfl⟩ := h
    have haccepted := verifyCtvFanoutManifestSet_eq_ok hset
    refine ⟨rfl, haccepted.accepted, haccepted.distinct, ?_⟩
    intro manifest hmem
    obtain ⟨u, -, hu⟩ := exists_of_mapM_ok hunits hmem
    simp only [bind_eq_ok, auditRequire_eq_ok] at hu
    obtain ⟨-, hparent, -⟩ := hu
    exact hparent

theorem settlementRecipientsFromEntitlements_eq_ok {recipients : List SettlementRecipient}
    (h : settlementRecipientsFromEntitlements entitlements = .ok recipients) :
    recipients.map (·.entitlement) = entitlements := by
  rw [← map_id entitlements]
  refine map_eq_of_mapM_ok id (·.entitlement) h ?_
  intro entitlement recipient hrecipient
  simp only [bind_eq_ok, okOr_eq_ok, pure_eq_ok, Unsigned.ofNat?_eq_some] at hrecipient
  obtain ⟨amount, hamount, rfl⟩ := hrecipient
  have hweight : U64.toU128 amount = entitlement.weight := Unsigned.ext hamount
  simp only [SettlementRecipient.entitlement, hweight, id]

/-- The accounts are covered, each once, by the direct recipients and the fanout outputs. -/
def Covered (m : PayoutPolicyManifest) (direct : List SettlementRecipient)
    (outputs : List CtvFanoutOutput) : Prop :=
  (direct.map (·.entitlement) ++ outputs.map (·.coveredRecipient.entitlement)).Perm m.onchainEntitlements

theorem verifyCtvSettlementBundle_eq_ok
    (h : verifyCtvSettlementBundle ctx decision fanoutSet m coinbase leaves = .ok entitlements) :
    ∃ manifests, manifests = fanoutSet.elim [] (·.manifests) ∧
      AcceptedFanouts manifests coinbase.coinbaseTxHex ∧
      Covered m decision.directRecipients (manifests.flatMap (·.precommitment.outputs)) ∧
      entitlements = decision.directRecipients.map (·.entitlement) ++
        manifests.map (·.covenantEntitlement) := by
  simp only [verifyCtvSettlementBundle, bind_eq_ok, auditRequire_eq_ok, pure_eq_ok] at h
  obtain ⟨manifests, hmanifests, expected, hexpected, -, hcoverage, rfl⟩ := h
  obtain ⟨hset, hfanouts⟩ := settlementManifests_eq_ok hmanifests
  refine ⟨manifests, hset, hfanouts, ?_, rfl⟩
  have hperm := (sortBy_perm settlementRecipientCmp _).symm.trans
    (hcoverage ▸ sortBy_perm settlementRecipientCmp expected)
  have hentitlements := hperm.map (·.entitlement)
  rw [settlementRecipientsFromEntitlements_eq_ok hexpected, map_append] at hentitlements
  simp only [map_flatMap, map_map] at hentitlements
  rw [Covered, map_flatMap]
  exact hentitlements

structure AcceptedBundle (bundle : AuditBundle) (decision : SettlementModeDecision)
    (outputs : List AllocatedOutput) (commitmentScript : List UInt8) : Prop where
  accounts : AcceptedAccounts bundle.payoutPolicyManifest bundle.rewardManifest.coinbaseValueSats
  fanouts : AcceptedFanouts bundle.manifests bundle.signedCoinbaseManifest.manifest.coinbaseTxHex
  covered : Covered bundle.payoutPolicyManifest decision.directRecipients bundle.fanoutOutputs
  built : ∃ request : CoinbaseBuildRequest,
    request.coinbaseValueSats = bundle.rewardManifest.coinbaseValueSats ∧
      request.entitlements = decision.directRecipients.map (·.entitlement) ++
        bundle.manifests.map (·.covenantEntitlement) ∧
      BuiltManifest request bundle.signedCoinbaseManifest.manifest outputs commitmentScript

theorem verifyAuditBundle_eq_ok {key : String} {report : AuditVerificationReport}
    (h : verifyAuditBundle ctx bundle key = .ok report) (hdecision : bundle.settlementModeDecision = some decision) :
    ∃ outputs commitmentScript, AcceptedBundle bundle decision outputs commitmentScript := by
  simp only [verifyAuditBundle, expectedCoinbaseEntitlements, hdecision, bind_eq_ok, auditRequire_eq_ok,
    mapError_eq_ok, pure_eq_ok] at h
  obtain ⟨-, -, -, -, -, -, r, -, -, rfl, m, hm, -, rfl, -, -, x, ⟨entitlements, hsettlement, rfl⟩, -, -,
    root, -, -, -, coinbase, hcoinbase, -, rfl, -⟩ := h
  obtain ⟨manifests, rfl, hfanouts, hcovered, rfl⟩ := verifyCtvSettlementBundle_eq_ok hsettlement
  obtain ⟨outputs, commitmentScript, hbuilt⟩ := buildManifest_eq_ok hcoinbase
  exact ⟨outputs, commitmentScript, expectedPolicyManifest_eq_ok hm, hfanouts, hcovered, _, rfl, rfl, hbuilt⟩

end QbitPrism
