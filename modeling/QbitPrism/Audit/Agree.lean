import Mathlib
import QbitPrism.Audit.Accepted
import QbitPrism.Audit.Settled
import QbitPrism.Payout.Conservation

/-!
# The builder and the verifier of a CTV settlement agree

The verifier takes what the builder made back apart and checks every piece. It accepts a built
body exactly when the programs paid on chain are spelled in lower case: the settlement recipients
are normalised, and the coverage check compares them with the entitlements as they are spelled.
-/
namespace QbitPrism
open MachineInt Checked SortBy ByteReader List

theorem verifyEd25519Message_signature {crypto : Crypto} (key : ManifestSigningKey crypto) (message : List UInt8) :
    crypto.verifyEd25519Message key.publicKeyHex message (key.signMessageHex message) = .ok () := by
  simp only [Crypto.verifyEd25519Message, bind_eq_ok, mapError_eq_ok, okOr_eq_ok, require_eq_ok,
    Bytes.ofList?_eq_some, ManifestSigningKey.publicKeyHex, ManifestSigningKey.signMessageHex, Hex.decode_encode]
  exact ⟨_, rfl, key.publicKey, rfl, (), key.valid, _, rfl, key.sign message, rfl, key.verifies message⟩

theorem buildPrismRewardManifestWithCut_header {crypto : Crypto} {shares : List AcceptedShare}
    {foundBlock : FoundBlock} {cut : Option WindowCut} {m : PrismRewardManifest}
    (h : buildPrismRewardManifestWithCut crypto shares foundBlock cut = .ok m) :
    m.blockHeight = foundBlock.blockHeight ∧ m.coinbaseValueSats = foundBlock.coinbaseValueSats ∧
      m.networkDifficulty = foundBlock.networkDifficulty ∧
      m.anchorJobIssuedAtMs = foundBlock.anchorJobIssuedAtMs ∧ m.cut = cut := by
  simp only [buildPrismRewardManifestWithCut, bind_eq_ok, pure_eq_ok] at h
  obtain ⟨window, hwindow, newest, -, oldest, -, rfl⟩ := h
  simp only [computePrismWindowInCut, bind_eq_ok, pure_eq_ok, Prod.exists] at hwindow
  obtain ⟨_, _, -, _, -, _, -, _, -, rfl⟩ := hwindow
  exact ⟨rfl, rfl, rfl, rfl, rfl⟩

/-- The payouts of a block and how they are settled. -/
structure SettledBy (input : CtvSettlementInput) (rewardManifest : PrismRewardManifest)
    (base : PayoutPolicyManifest) (recipients : List SettlementRecipient) (settled : SettledPayouts) :
    Prop where
  policy : applyPayoutPolicy rewardManifest input.priorBalances input.payoutPolicy = .ok base
  listed : settlementRecipientsFromEntitlements base.onchainEntitlements = .ok recipients
  settles : settled.decision.Settles recipients (pinnedSettlementRecipientForPolicy base)
  charged : (match input.ctvFanoutFeePolicy with
    | none => (.ok base : Except PrismError PayoutPolicyManifest)
    | some feePolicy => applyCtvFanoutFeeAccounting base settled.decision feePolicy) =
      .ok settled.payoutPolicyManifest
  manifest : settled.payoutPolicyManifest = { base with accounts := settled.payoutPolicyManifest.accounts }
  fees : ∀ r ∈ settled.decision.fanoutRecipients, FeesCharge settled.fanoutFeeRecipients r

theorem settlePayouts_eq_ok {input : CtvSettlementInput} {rewardManifest : PrismRewardManifest}
    {settled : SettledPayouts} (h : settlePayouts input rewardManifest = .ok settled) :
    ∃ base recipients, SettledBy input rewardManifest base recipients settled := by
  simp only [settlePayouts, bind_eq_ok] at h
  obtain ⟨base, hbase, recipients, hrecipients, decision, hdecision, h⟩ := h
  have hsettles := selectSettlementMode_settles hdecision
  refine ⟨base, recipients, ?_⟩
  cases hfee : input.ctvFanoutFeePolicy with
  | none =>
    rw [hfee] at h
    cases h
    refine ⟨hbase, hrecipients, hsettles, by rw [hfee], rfl, ?_⟩
    intro r _ charged hlookup
    cases hlookup
  | some feePolicy =>
    rw [hfee] at h
    simp only [bind_eq_ok, pure_eq_ok] at h
    obtain ⟨byKey, hbyKey, charged, hcharged, rfl⟩ := h
    refine ⟨hbase, hrecipients, hsettles, by rw [hfee]; exact hcharged,
      (applyCtvFanoutFeeAccounting_eq_ok hcharged).1, ?_⟩
    intro r hr found hlookup
    have hnormal := hsettles.normal (mem_append_right _ hr)
    obtain ⟨own, hown, hcharges⟩ := fanoutFeesByKey_lookup hbyKey hr hnormal
    cases hlookup.symm.trans hown
    exact hcharges

namespace SettledBy
variable {input : CtvSettlementInput} {rewardManifest : PrismRewardManifest} {base : PayoutPolicyManifest}
  {recipients : List SettlementRecipient} {settled : SettledPayouts}
  (h : SettledBy input rewardManifest base recipients settled)
include h

theorem onchain_eq : settled.payoutPolicyManifest.onchainEntitlements = base.onchainEntitlements := by
  rw [h.manifest]

theorem poolFeeFirst_eq : poolFeeFirstOutput settled.payoutPolicyManifest = poolFeeFirstOutput base := by
  rw [h.manifest]
  rfl

theorem amounts_sum : (settled.decision.recipients.map fun r => r.amountSats.val).sum =
    rewardManifest.coinbaseValueSats.val := by
  obtain ⟨run⟩ := applyPayoutPolicy_eq_ok h.policy
  obtain ⟨normalized, hnormalized, hperm⟩ := h.settles.settled
  have hamounts : normalized.map (fun r => r.amountSats.val) = recipients.map fun r => r.amountSats.val := by
    refine map_eq_of_mapM_ok _ _ hnormalized ?_
    intro r r' hr
    obtain ⟨program, -, rfl⟩ := normalizeRecipientP2mrProgram_eq_ok.mp hr
    rfl
  have hweights : base.onchainEntitlements.map (fun e => e.weight.val) =
      recipients.map fun r => r.amountSats.val := by
    rw [← settlementRecipientsFromEntitlements_eq_ok h.listed, map_map]
    exact map_congr_left fun r _ => U64.toU128_val r.amountSats
  rw [(hperm.map _).sum_eq, hamounts, ← hweights, run.entitlements_eq, onchainEntitlements_sum,
    ← run.onchain_total, run.accounts_eq, sum_map_sortBy]

theorem fee_listed {fee : PoolFeeManifest} (hfee : poolFeeFirstOutput base = some fee) :
    { fee.toPayoutIdentity with amountSats := fee.amountSats } ∈ recipients := by
  obtain ⟨run⟩ := applyPayoutPolicy_eq_ok h.policy
  unfold poolFeeFirstOutput at hfee
  split_ifs at hfee
  obtain ⟨hpool, hpositive⟩ := Option.filter_eq_some_iff.mp hfee
  have hmem : (poolFeeAccount fee).entitlement ∈ base.onchainEntitlements := by
    rw [run.entitlements_eq, ← run.poolFee_eq, hpool]
    refine mem_map_of_mem (mem_filter.mpr ⟨?_, hpositive⟩)
    exact mem_append_right _ (mem_singleton_self _)
  obtain ⟨recipient, hrecipient, hlisted⟩ := exists_of_mapM_ok h.listed hmem
  simp only [bind_eq_ok, okOr_eq_ok, pure_eq_ok, Unsigned.ofNat?_eq_some] at hlisted
  obtain ⟨amount, hamount, rfl⟩ := hlisted
  have hsame : amount = fee.amountSats := Unsigned.ext (hamount.trans (U64.toU128_val fee.amountSats))
  rw [hsame] at hrecipient
  exact hrecipient

theorem fee_direct {fee : PoolFeeManifest} (hfee : poolFeeFirstOutput base = some fee) :
    ∃ own ∈ settled.decision.directRecipients, ∃ program : Bytes 32,
      Hex.decode fee.p2mrProgramHex = .ok program.toList ∧
      own = { recipientId := fee.recipientId, orderKey := fee.orderKey
              p2mrProgramHex := Hex.encode program.toList, amountSats := fee.amountSats } := by
  obtain ⟨normalized, hnormalized, hperm⟩ := h.settles.settled
  obtain ⟨own, hown, hnormal⟩ := exists_of_mapM_ok hnormalized (h.fee_listed hfee)
  have hpinned : pinnedSettlementRecipientForPolicy base =
      some { fee.toPayoutIdentity with amountSats := fee.amountSats } := by
    rw [pinnedSettlementRecipientForPolicy, hfee]
    rfl
  obtain ⟨key, hkey, r, hr, hidentity⟩ := h.settles.pinned _ hpinned
  cases hnormal.symm.trans hkey
  have hrown : r = own := inj_on_of_nodup_map h.settles.distinct (mem_append_left _ hr)
    (hperm.mem_iff.mpr hown) hidentity
  obtain ⟨program, hprogram, rfl⟩ := normalizeRecipientP2mrProgram_eq_ok.mp hnormal
  exact ⟨r, hr, program, hprogram, hrown⟩

variable {ctx : AuditContext} {preparedFanouts : List PreparedCtvFanout}

theorem prepared_chunks
    (hprepare : settled.decision.fanoutChunks.mapM (prepareFanout ctx rewardManifest settled) = .ok preparedFanouts) :
    List.Forall₂ (ChunkPrepared ctx settled.decision.mode) settled.decision.fanoutChunks preparedFanouts := by
  have hchunk : ∀ chunk ∈ settled.decision.fanoutChunks, ∀ r ∈ chunk.recipients,
      r ∈ settled.decision.fanoutRecipients :=
    fun chunk hchunk r hr => mem_flatMap.mpr ⟨chunk, hchunk, hr⟩
  refine ((List.forall₂_and_left _ _).mpr ⟨hchunk, mapM_eq_ok.mp hprepare⟩).imp ?_
  rintro chunk prepared ⟨hmem, hprepared⟩
  have hrecipient : ∀ r ∈ chunk.recipients, r ∈ settled.decision.recipients :=
    fun r hr => mem_append_right _ (hmem r hr)
  exact prepareFanout_eq_ok (fun r hr => h.settles.normal (hrecipient r hr))
    (fun r hr => h.settles.positive r (hrecipient r hr)) (fun r hr => h.fees r (hmem r hr)) hprepared

variable (hprepared : List.Forall₂ (ChunkPrepared ctx settled.decision.mode)
  settled.decision.fanoutChunks preparedFanouts)
include hprepared

theorem entitlements_sum : ((settled.decision.directRecipients.map (·.entitlement) ++
      preparedFanouts.map (·.covenantEntitlement)).map fun e => e.weight.val).sum =
    rewardManifest.coinbaseValueSats.val := by
  have hdirect : (settled.decision.directRecipients.map (·.entitlement)).map (fun e => e.weight.val) =
      settled.decision.directRecipients.map fun r => r.amountSats.val := by
    rw [map_map]
    exact map_congr_left fun r _ => U64.toU128_val r.amountSats
  have hfanout : (preparedFanouts.map (·.covenantEntitlement)).map (fun e => e.weight.val) =
      settled.decision.fanoutChunks.map fun c => (c.recipients.map fun r => r.amountSats.val).sum := by
    rw [map_map]
    refine map_eq_of_forall₂ _ _ hprepared ?_
    intro chunk prepared hchunk
    exact (U64.toU128_val _).trans hchunk.value
  rw [map_append, sum_append, hdirect, hfanout, ← h.amounts_sum, SettlementModeDecision.recipients,
    SettlementModeDecision.fanoutRecipients, map_append, sum_append, map_flatMap, flatMap_def, sum_flatten, map_map]
  rfl

theorem outputPolicy_ok {request : CoinbaseBuildRequest} {coinbase : PayoutManifest}
    (hcoinbase : buildManifest ctx.toCrypto request = .ok coinbase)
    (hentitlements : request.entitlements = settled.decision.directRecipients.map (·.entitlement) ++
      preparedFanouts.map (·.covenantEntitlement))
    (hvalue : request.coinbaseValueSats = rewardManifest.coinbaseValueSats)
    (hpinned : request.pinnedFirstOutput = pinnedFirstOutputForPolicy settled.payoutPolicyManifest) :
    verifyCoinbaseOutputPolicy settled.payoutPolicyManifest (some settled.decision) coinbase = .ok () := by
  rw [verifyCoinbaseOutputPolicy, h.poolFeeFirst_eq]
  cases hfee : poolFeeFirstOutput base with
  | none => rfl
  | some fee =>
    have hpin : request.pinnedFirstOutput = some fee.toPayoutIdentity := by
      rw [hpinned, pinnedFirstOutputForPolicy, h.poolFeeFirst_eq, hfee]
      rfl
    obtain ⟨first, e, hfirst, hvout, -, -, honly, hid, hkey, hprogram, hamount⟩ :=
      buildManifest_pinned hcoinbase hpin (by rw [hentitlements, hvalue]; exact h.entitlements_sum hprepared)
    obtain ⟨own, hdirect, program, hdecode, hown⟩ := h.fee_direct hfee
    have hencode := Hex.decode_encode program.toList
    have hmatches : matchesPoolFee fee own.toPayoutIdentity := by
      rw [hown]
      exact ⟨rfl, rfl, (eqIgnoreAsciiCase_of_decode hencode hdecode).mpr rfl⟩
    -- The only entitlement that matches the pin is the fee's own.
    have hpaid := honly own.entitlement
      (hentitlements ▸ mem_append_left _ (mem_map_of_mem hdirect)) hmatches
    subst hpaid
    have hfirstProgram : Hex.decode first.p2mrProgramHex = .ok program.toList := by
      rw [← hprogram, ← hencode, hown]
      rfl
    have hamountEq : first.amountSats = fee.amountSats := by
      apply Unsigned.ext
      rw [hamount, hown]
      exact U64.toU128_val fee.amountSats
    simp only [bind_eq_ok, okOr_eq_ok, auditRequire_eq_ok]
    refine ⟨first, hfirst, (), ⟨hvout, ⟨hid.trans hmatches.1, hkey.trans hmatches.2.1,
      (eqIgnoreAsciiCase_of_decode hfirstProgram hdecode).mpr rfl⟩, hamountEq⟩, ?_⟩
    rw [verifyFeeSettlement, auditRequire_eq_ok]
    refine ⟨⟨own, hdirect, hmatches⟩, ?_⟩
    rintro ⟨chunk, hchunk, r, hr, hrid, hrkey, hrprogram⟩
    have hfanout : r ∈ settled.decision.fanoutRecipients := mem_flatMap.mpr ⟨chunk, hchunk, hr⟩
    obtain ⟨bytes, hbytes, hnormal⟩ := normalizeRecipientP2mrProgram_eq_ok.mp
      (h.settles.normal (mem_append_right _ hfanout))
    have hsame := (eqIgnoreAsciiCase_of_decode hbytes hdecode).mp hrprogram
    -- A fanout recipient with the fee's identity would be a second one.
    have hidentity : r.toPayoutIdentity = own.toPayoutIdentity := by
      rw [hown, hnormal, hsame]
      show PayoutIdentity.mk r.recipientId r.orderKey _ = _
      rw [hrid, hrkey]
    exact h.settles.disjoint hdirect hfanout hidentity.symm

end SettledBy

instance : Std.TransCmp settlementRecipientCmp := by
  have : Std.TransCmp fun a b : SettlementRecipient => a.toPayoutIdentity.canonicalCmp b.toPayoutIdentity :=
    transCmp_comap _ _
  unfold settlementRecipientCmp
  infer_instance

instance : Std.LawfulEqCmp settlementRecipientCmp where
  eq_of_compare {a b} h := by
    simp only [settlementRecipientCmp, compareLex_eq_eq, compareOn, Std.LawfulEqCmp.compare_eq_iff_eq] at h
    obtain ⟨hidentity, hamount⟩ := h
    cases a
    cases b
    simp_all [Unsigned.ext_iff]

theorem covered_perm {ctx : AuditContext} {mode : SettlementMode} {coinbase : PayoutManifest}
    {chunks : List SettlementFanoutChunk} {preparedFanouts : List PreparedCtvFanout}
    {manifests : List CtvFanoutManifest} (hprepared : List.Forall₂ (ChunkPrepared ctx mode) chunks preparedFanouts)
    (hbound : List.Forall₂ (Bound ctx coinbase) preparedFanouts manifests) :
    (manifests.flatMap fun m => m.precommitment.outputs.map (·.coveredRecipient)).Perm
      (chunks.flatMap (·.recipients)) := by
  induction hprepared generalizing manifests with
  | nil =>
    cases hbound
    exact .refl _
  | cons hchunk _ ih =>
    obtain ⟨manifest, rest, hmanifest, hrest, rfl⟩ := List.forall₂_cons_left_iff.mp hbound
    rw [flatMap_cons, flatMap_cons, hmanifest.precommitment]
    exact hchunk.covers.append (ih hrest)

theorem normalized_perm_iff {recipients normalized : List SettlementRecipient}
    (h : recipients.mapM normalizeRecipientP2mrProgram = .ok normalized) :
    normalized.Perm recipients ↔ ∀ r ∈ recipients, r.programKey = r.p2mrProgramHex := by
  constructor
  · intro hperm r hr
    obtain ⟨source, -, hsource⟩ := mem_of_mapM_ok h (hperm.mem_iff.mpr hr)
    obtain ⟨program, -, rfl⟩ := normalizeRecipientP2mrProgram_eq_ok.mp hsource
    exact toLower_encode program.toList
  · intro hlower
    have hsame : recipients.mapM normalizeRecipientP2mrProgram = .ok recipients := by
      apply mapM_eq_self
      intro r hr
      obtain ⟨own, -, hown⟩ := exists_of_mapM_ok h hr
      obtain ⟨program, hprogram, rfl⟩ := normalizeRecipientP2mrProgram_eq_ok.mp hown
      rw [hown, ← Hex.toLower_of_decode hprogram, ← payoutProgramKey, ← PayoutIdentity.programKey, hlower r hr]
    rw [Except.ok.inj (h.symm.trans hsame)]

section
variable {ctx : AuditContext} {request : CoinbaseBuildRequest} {coinbase : PayoutManifest}
  {chunks : List SettlementFanoutChunk} {preparedFanouts : List PreparedCtvFanout}
  {fanoutSet : Option CtvFanoutManifestSet}

theorem settlementManifests_built {decision : SettlementModeDecision} (leaf : String)
    (hcoinbase : buildManifest ctx.toCrypto request = .ok coinbase)
    (hprepared : List.Forall₂ (ChunkPrepared ctx decision.mode) decision.fanoutChunks preparedFanouts)
    (hindices : decision.fanoutChunks.map (·.chunkIndex) = List.range decision.fanoutChunks.length)
    (hcount : decision.fanoutChunkCount = decision.fanoutChunks.length)
    (h : bindFanouts ctx coinbase preparedFanouts = .ok fanoutSet) :
    settlementManifests ctx decision fanoutSet coinbase
        (leaf :: preparedFanouts.map (·.commitmentWitnessLeafHex)) =
      .ok (fanoutSet.elim [] (·.manifests)) ∧
    List.Forall₂ (Bound ctx coinbase) preparedFanouts (fanoutSet.elim [] (·.manifests)) := by
  rw [settlementManifests, hcount, hprepared.length_eq]
  obtain ⟨rfl, rfl⟩ | ⟨set, hne, rfl, hset⟩ := bindFanouts_eq_ok hcoinbase hprepared hindices h
  · exact ⟨rfl, .nil⟩
  · refine ⟨?_, hset.members⟩
    have hlength : preparedFanouts.length ≠ 0 := by simpa using hne
    have hmember : ∀ manifest ∈ set.manifests, (do
        auditRequire (manifest.parentCoinbaseTxHex = coinbase.coinbaseTxHex) "ctv_fanout_parent_coinbase_tx"
        verifyCtvFanoutManifestCommitmentLeaf ctx.toCtvContext manifest
          (leaf :: preparedFanouts.map PreparedCtvFanout.commitmentWitnessLeafHex)) = .ok () := by
      intro manifest hmanifest
      obtain ⟨prepared, hmem, hbound⟩ := exists_of_forall₂ hset.members.flip hmanifest
      simp only [bind_eq_ok, auditRequire_eq_ok, verifyCtvFanoutManifestCommitmentLeaf, ctvRequire_eq_ok]
      refine ⟨(), hbound.txHex, (), hbound.checked, manifest.commitmentWitnessLeafHex, ?_, rfl⟩
      rw [hbound.leaf]
      exact mem_cons_of_mem _ (mem_map_of_mem hmem)
    rw [if_neg hlength]
    simp only [bind_eq_ok, okOr_eq_ok, auditRequire_eq_ok, pure_eq_ok]
    obtain ⟨units, hunits⟩ := mapM_isOk _ fun manifest hmanifest => ⟨(), hmember manifest hmanifest⟩
    exact ⟨set, rfl, (), hset.verified, (), hset.txid, (), hset.mode, (), hset.count, units, hunits, rfl⟩

end

section
variable {ctx : AuditContext} {input : CtvSettlementInput} {rewardManifest : PrismRewardManifest}
  {base : PayoutPolicyManifest} {recipients : List SettlementRecipient} {settled : SettledPayouts}
  {request : CoinbaseBuildRequest} {coinbase : PayoutManifest} {preparedFanouts : List PreparedCtvFanout}
  {fanoutSet : Option CtvFanoutManifestSet}

/-- The programs paid on chain are spelled in lower case. -/
def PayoutPolicyManifest.LowerCase (manifest : PayoutPolicyManifest) : Prop :=
  ∀ e ∈ manifest.onchainEntitlements, e.programKey = e.p2mrProgramHex

instance (manifest : PayoutPolicyManifest) : Decidable manifest.LowerCase := by
  unfold PayoutPolicyManifest.LowerCase
  infer_instance

theorem verifyCtvSettlementBundle_built (leaf : String) (h : SettledBy input rewardManifest base recipients settled)
    (hcoinbase : buildManifest ctx.toCrypto request = .ok coinbase)
    (hprepared : List.Forall₂ (ChunkPrepared ctx settled.decision.mode) settled.decision.fanoutChunks preparedFanouts)
    (hbind : bindFanouts ctx coinbase preparedFanouts = .ok fanoutSet) (entitlements : List WeightedEntitlement) :
    verifyCtvSettlementBundle ctx settled.decision fanoutSet settled.payoutPolicyManifest coinbase
        (leaf :: preparedFanouts.map (·.commitmentWitnessLeafHex)) = .ok entitlements ↔
      settled.payoutPolicyManifest.LowerCase ∧
        entitlements = settled.decision.directRecipients.map (·.entitlement) ++
          preparedFanouts.map (·.covenantEntitlement) := by
  obtain ⟨hmanifests, hbound⟩ := settlementManifests_built leaf hcoinbase hprepared
    h.settles.chunkIndices h.settles.chunkCount hbind
  obtain ⟨normalized, hnormalized, hperm⟩ := h.settles.settled
  have hcovered := ((covered_perm hprepared hbound).append_left settled.decision.directRecipients).trans hperm
  have hspelled : (settled.decision.directRecipients ++ (fanoutSet.elim [] (·.manifests)).flatMap
      fun m => m.precommitment.outputs.map (·.coveredRecipient)).Perm recipients ↔
      settled.payoutPolicyManifest.LowerCase := by
    rw [show _ ↔ normalized.Perm recipients from ⟨hcovered.symm.trans, hcovered.trans⟩,
      normalized_perm_iff hnormalized, PayoutPolicyManifest.LowerCase, h.onchain_eq,
      ← settlementRecipientsFromEntitlements_eq_ok h.listed, forall_mem_map]
    rfl
  have hentitlements : (fanoutSet.elim [] (·.manifests)).map (·.covenantEntitlement) =
      preparedFanouts.map (·.covenantEntitlement) :=
    map_eq_of_forall₂ _ _ hbound fun prepared manifest hmanifest => hmanifest.entitlement
  simp only [verifyCtvSettlementBundle, hmanifests, ok_bind, h.onchain_eq, h.listed, bind_eq_ok,
    auditRequire_eq_ok, pure_eq_ok, sortBy_eq_iff_perm, hspelled, hentitlements, exists_const]
  exact and_congr_right fun _ => eq_comm

end

section
variable {ctx : AuditContext} {input : CtvSettlementInput} {body : AuditBundleBody}
  {coinbaseKey ledgerKey : ManifestSigningKey ctx.toCrypto} {parallelism : Parallelism}

theorem verifyLedgerWindowAttestation_built (hattestation : body.ledgerWindowAttestation =
    buildLedgerWindowAttestation ctx body.rewardManifest body.priorBalances ledgerKey) (hreward :
    buildPrismRewardManifestWithCut ctx.toCrypto input.shares body.foundBlock input.windowCut = .ok
    body.rewardManifest) (shares : List AcceptedShare) :
    verifyLedgerWindowAttestation ctx (body.intoBundle shares) ledgerKey.publicKeyHex = .ok () := by
  obtain ⟨hheight, hvalue, hdifficulty, hanchor, -⟩ := buildPrismRewardManifestWithCut_header hreward
  simp only [verifyLedgerWindowAttestation, AuditBundleBody.intoBundle, hattestation,
    buildLedgerWindowAttestation, bind_eq_ok, auditRequire_eq_ok, mapError_eq_ok]
  exact ⟨(), trivial, (), ⟨hanchor, hdifficulty, hheight, hvalue⟩, (), trivial, (), trivial, (), rfl, (), rfl,
    verifyEd25519Message_signature ledgerKey _⟩

theorem verifySignedManifest_signed (manifest : PayoutManifest) :
    verifySignedManifest ctx.toCrypto ctx.payoutManifestBytes (signManifest ctx manifest coinbaseKey) =
      .ok () := by
  simp only [verifySignedManifest, signManifest, bind_eq_ok]
  exact ⟨(), rfl, verifyEd25519Message_signature coinbaseKey _⟩

theorem hexVecEqIgnoreAsciiCase_refl (leaves : List String) : hexVecEqIgnoreAsciiCase leaves leaves :=
  List.forall₂_same.mpr fun _ _ => rfl

theorem auditVerificationReport_isOk (bundle : AuditBundle) (coinbase : PayoutManifest) {root : String}
    (h : auditCommitmentRootHex ctx bundle.auditCommitmentLeavesHex = .ok root) :
    ∃ report, auditVerificationReport ctx bundle coinbase = .ok report := by
  rw [auditVerificationReport, h]
  exact ⟨_, rfl⟩

theorem verifyAuditParts_built
    (h : buildAuditBundleBodyWithCtvSettlementOptionsParallel ctx input coinbaseKey ledgerKey parallelism = .ok body) :
    (∃ report, verifyAuditParts ctx body input.shares ledgerKey.publicKeyHex = .ok report) ↔
      body.payoutPolicyManifest.LowerCase := by
  simp only [buildAuditBundleBodyWithCtvSettlementOptionsParallel, bind_eq_ok, mapError_eq_ok, pure_eq_ok] at h
  obtain ⟨-, -, rewardManifest, hreward, settled, hsettled, preparedFanouts, hprepare, root, hroot,
    entitlements, hentitlements, coinbase, hcoinbase, fanoutSet, hbind, hbody⟩ := h
  simp only [ctvSettlementCoinbaseEntitlements, bind_eq_ok, pure_eq_ok] at hentitlements
  obtain ⟨-, -, rfl⟩ := hentitlements
  obtain ⟨base, recipients, hsettledBy⟩ := settlePayouts_eq_ok hsettled
  have hserial := buildPrismRewardManifestParallel_eq_ok hreward
  have hprepared := hsettledBy.prepared_chunks hprepare
  have hsettlement := verifyCtvSettlementBundle_built
    (prismAuditCommitmentLeafHex ctx rewardManifest settled.payoutPolicyManifest) hsettledBy hcoinbase
    hprepared hbind
  obtain ⟨-, -, -, -, hcut⟩ := buildPrismRewardManifestWithCut_header hserial
  have hpolicy : expectedPolicyManifest (body.intoBundle input.shares) rewardManifest =
      .ok settled.payoutPolicyManifest := by
    have hcharged := hsettledBy.charged
    rw [← hbody]
    simp only [expectedPolicyManifest, AuditBundleBody.intoBundle, hsettledBy.policy, ok_bind]
    cases hfee : input.ctvFanoutFeePolicy with
    | none | some =>
      rw [hfee] at hcharged
      exact hcharged
  have hdecision : (body.intoBundle input.shares).settlementModeDecision = some settled.decision := by
    rw [← hbody]
    rfl
  obtain ⟨report, hreport⟩ : ∃ report,
      auditVerificationReport ctx (body.intoBundle input.shares) coinbase = .ok report := by
    apply auditVerificationReport_isOk
    rw [← hbody]
    exact hroot
  simp only [verifyAuditParts, verifyAuditBundle, expectedCoinbaseEntitlements, hdecision, bind_eq_ok,
    auditRequire_eq_ok, mapError_eq_ok, pure_eq_ok]
  subst hbody
  constructor
  · rintro ⟨report, -, -, -, -, -, -, _, -, -, rfl, _, -, -, rfl, -, -, _, ⟨accepted, haccepted, -⟩, -⟩
    exact ((hsettlement accepted).mp haccepted).1
  · intro hlower
    obtain ⟨-, hbound⟩ := settlementManifests_built
      (prismAuditCommitmentLeafHex ctx rewardManifest settled.payoutPolicyManifest) hcoinbase hprepared
      hsettledBy.settles.chunkIndices hsettledBy.settles.chunkCount hbind
    have hleaves : (fanoutSet.elim [] (·.manifests)).map (·.commitmentWitnessLeafHex) =
        preparedFanouts.map (·.commitmentWitnessLeafHex) :=
      map_eq_of_forall₂ _ _ hbound fun prepared manifest hmanifest => hmanifest.leaf
    exact ⟨report, (), rfl, (), verifyLedgerWindowAttestation_built rfl hserial input.shares, (),
      verifySignedManifest_signed coinbase, rewardManifest, hcut ▸ hserial, (), rfl,
      settled.payoutPolicyManifest, hpolicy, (), rfl, (),
      hsettledBy.outputPolicy_ok hprepared hcoinbase rfl rfl rfl, (_, _),
      ⟨_, (hsettlement _).mpr ⟨hlower, rfl⟩, congrArg (Prod.mk _) hleaves⟩, (),
      hexVecEqIgnoreAsciiCase_refl _, root, hroot, (), ⟨root, rfl, rfl⟩, coinbase, hcoinbase, (), rfl, hreport⟩

end

end QbitPrism
