import Mathlib
import QbitPrism.Audit.Build
import QbitPrism.Coinbase.Parent
import QbitPrism.Ctv.Built
import QbitPrism.Settlement.Charged

/-!
# What the prepared fanouts pay

A chunk's fanout covers the chunk's recipients, each with what it was owed before the fee, and its
covenant output is funded with exactly that. Bound to the coinbase, the fanouts are the manifest
set the verifier reads, with the leaves and entitlements they were prepared with.
-/
namespace QbitPrism
open MachineInt Checked SortBy ByteReader List

/-- The recipient a payout settles, with the amount before the fee. -/
def CtvFanoutPayout.covered (payout : CtvFanoutPayout) : SettlementRecipient :=
  { payout.toPayoutIdentity with amountSats := payout.grossSats }

theorem CtvFanoutPayout.stated_covered (payout : CtvFanoutPayout) :
    payout.stated.covered = payout.covered := by
  unfold CtvFanoutPayout.covered
  rw [CtvFanoutPayout.stated_grossSats]
  rfl

variable {payouts : List CtvFanoutPayout} {outputs : List CtvFanoutOutput}

theorem PushedOutputs.covered (h : PushedOutputs payouts outputs) :
    outputs.map (·.coveredRecipient) = payouts.map (·.covered) := by
  have hmap := congrArg (List.map CtvFanoutPayout.covered) h.stated
  rw [map_map, map_map] at hmap
  rw [show (fun o : CtvFanoutOutput => o.coveredRecipient) =
    CtvFanoutPayout.covered ∘ CtvFanoutOutput.payout from rfl, hmap]
  exact map_congr_left fun payout _ => payout.stated_covered

theorem PushedOutputs.funded (h : PushedOutputs payouts outputs) :
    (outputs.map fun o => o.amountSats.val + o.feeSats.val).sum =
      (payouts.map fun p => p.grossSats.val).sum := by
  have hmap := congrArg (List.map fun p : CtvFanoutPayout => p.amountSats.val + p.feeSats.val) h.stated
  rw [map_map, map_map] at hmap
  rw [show (fun o : CtvFanoutOutput => o.amountSats.val + o.feeSats.val) =
    (fun p : CtvFanoutPayout => p.amountSats.val + p.feeSats.val) ∘ CtvFanoutOutput.payout from rfl, hmap]
  exact congrArg List.sum (map_congr_left fun p hp => (h.split p hp).symm)

theorem canonicalFanoutOutputs_covered (hcanonical : ∀ p ∈ payouts, canonicalPayout p = .ok p)
    (h : canonicalFanoutOutputs payouts = .ok outputs) :
    (outputs.map (·.coveredRecipient)).Perm (payouts.map (·.covered)) ∧
      (outputs.map fun o => o.amountSats.val + o.feeSats.val).sum =
        (payouts.map fun p => p.grossSats.val).sum := by
  obtain ⟨canonical, hmap, -, -, hpushed⟩ := canonicalFanoutOutputs_eq_ok h
  cases (mapM_eq_self hcanonical).symm.trans hmap
  have hperm := sortBy_perm fanoutPayoutCmp payouts
  refine ⟨?_, ?_⟩
  · rw [hpushed.covered]
    exact hperm.map _
  · rw [hpushed.funded]
    exact (hperm.map _).sum_eq

/-- The fees a decision's recipients find are their own, or there are none. -/
def FeesCharge (fees : List (String × FanoutFeeRecipient)) (recipient : SettlementRecipient) : Prop :=
  ∀ charged, fees.lookup (accountKey recipient.toPayoutIdentity) = some charged → charged.Charges recipient

variable {fees : List (String × FanoutFeeRecipient)} {recipient : SettlementRecipient}

theorem fanoutPayout_grossSats (hfees : FeesCharge fees recipient) (hpositive : recipient.amountSats ≠ 0) :
    (fanoutPayout fees recipient).grossSats = recipient.amountSats := by
  cases hlookup : fees.lookup (accountKey recipient.toPayoutIdentity) with
  | none => simp [fanoutPayout, CtvFanoutPayout.grossSats, hlookup]
  | some charged =>
    have hgross := (hfees charged hlookup).gross
    simp [fanoutPayout, CtvFanoutPayout.grossSats, hlookup, hgross, hpositive]

theorem fanoutPayout_covered (hfees : FeesCharge fees recipient)
    (hpositive : recipient.amountSats ≠ 0) : (fanoutPayout fees recipient).covered = recipient := by
  rw [CtvFanoutPayout.covered, fanoutPayout_grossSats hfees hpositive]
  rfl

theorem fanoutPayout_canonical (hnormal : normalizeRecipientP2mrProgram recipient = .ok recipient) :
    canonicalPayout (fanoutPayout fees recipient) = .ok (fanoutPayout fees recipient) := by
  obtain ⟨program, hprogram, heq⟩ := normalizeRecipientP2mrProgram_eq_ok.mp hnormal
  refine canonicalPayout_eq_ok.mpr ⟨program, hprogram, ?_⟩
  have hhex : recipient.p2mrProgramHex = Hex.encode program.toList :=
    congrArg (fun r : SettlementRecipient => r.p2mrProgramHex) heq
  rw [← hhex]
  rfl

variable {decision : SettlementModeDecision} {recipients : List SettlementRecipient}
  {pinned : Option SettlementRecipient} {prepared : PreparedCtvFanout} {manifests : List CtvFanoutManifest}
  {chunks : List SettlementFanoutChunk} {preparedFanouts : List PreparedCtvFanout}

theorem SettlementModeDecision.Settles.normal (h : decision.Settles recipients pinned) {r : SettlementRecipient}
    (hr : r ∈ decision.recipients) : normalizeRecipientP2mrProgram r = .ok r := by
  obtain ⟨normalized, hnormalized, hperm⟩ := h.settled
  obtain ⟨source, -, hsource⟩ := mem_of_mapM_ok hnormalized (hperm.mem_iff.mp hr)
  obtain ⟨program, -, rfl⟩ := normalizeRecipientP2mrProgram_eq_ok.mp hsource
  exact normalizeRecipientP2mrProgram_eq_ok.mpr ⟨program, Hex.decode_encode program.toList, rfl⟩

theorem SettlementModeDecision.Settles.disjoint (h : decision.Settles recipients pinned)
    {direct other : SettlementRecipient} (hdirect : direct ∈ decision.directRecipients)
    (hother : other ∈ decision.fanoutRecipients) : direct.toPayoutIdentity ≠ other.toPayoutIdentity := by
  have hdistinct := h.distinct
  rw [SettlementModeDecision.recipients, map_append, nodup_append] at hdistinct
  exact hdistinct.2.2 _ (mem_map_of_mem hdirect) _ (mem_map_of_mem hother)

variable (ctx : AuditContext)

structure ChunkPrepared (mode : SettlementMode) (chunk : SettlementFanoutChunk)
    (prepared : PreparedCtvFanout) : Prop where
  derives : Derives ctx.toCtvContext prepared.precommitment
  outputs : canonicalFanoutOutputs (prepared.precommitment.outputs.map (·.payout)) =
    .ok prepared.precommitment.outputs
  chunkIndex : prepared.precommitment.chunkIndex.val = chunk.chunkIndex
  mode : prepared.precommitment.settlementMode = mode
  leaf : commitmentWitnessLeafHex ctx.toCrypto
    (ctx.sha256Hex (ctx.precommitmentBytes prepared.precommitment)) = .ok prepared.commitmentWitnessLeafHex
  entitlement : prepared.covenantEntitlement = {
    recipientId := s!"ctv-fanout-{prepared.precommitment.chunkIndex.val}"
    orderKey := "ctv-fanout-" ++ padded prepared.precommitment.chunkIndex.val
    p2mrProgramHex := prepared.precommitment.p2mrProgramHex
    weight := U64.toU128 prepared.precommitment.covenantOutputValueSats }
  covers : (prepared.precommitment.outputs.map (·.coveredRecipient)).Perm chunk.recipients
  value : prepared.covenantOutputValueSats.val = (chunk.recipients.map fun r => r.amountSats.val).sum

variable {ctx}

theorem prepareFanout_eq_ok {rewardManifest : PrismRewardManifest} {settled : SettledPayouts}
    {chunk : SettlementFanoutChunk} (hnormal : ∀ r ∈ chunk.recipients, normalizeRecipientP2mrProgram r = .ok r)
    (hpositive : ∀ r ∈ chunk.recipients, r.amountSats ≠ 0)
    (hfees : ∀ r ∈ chunk.recipients, FeesCharge settled.fanoutFeeRecipients r)
    (h : prepareFanout ctx rewardManifest settled chunk = .ok prepared) :
    ChunkPrepared ctx settled.decision.mode chunk prepared := by
  simp only [prepareFanout, bind_eq_ok, okOr_eq_ok, Unsigned.ofNat?_eq_some] at h
  obtain ⟨chunkIndex, hindex, chunkCount, -, hprepare⟩ := h
  obtain ⟨hprepares, hderives⟩ := prepareCtvFanoutPrecommitment_eq_ok hprepare
  have hcovered : ∀ r ∈ chunk.recipients, (fanoutPayout settled.fanoutFeeRecipients r).covered = r :=
    fun r hr => fanoutPayout_covered (hfees r hr) (hpositive r hr)
  have hcanonical : ∀ p ∈ chunk.recipients.map (fanoutPayout settled.fanoutFeeRecipients),
      canonicalPayout p = .ok p := by
    intro p hp
    obtain ⟨r, hr, rfl⟩ := mem_map.mp hp
    exact fanoutPayout_canonical (hnormal r hr)
  obtain ⟨hperm, hfunded⟩ := canonicalFanoutOutputs_covered hcanonical hprepares.outputs
  have hchunk : (chunk.recipients.map (fanoutPayout settled.fanoutFeeRecipients)).map (·.covered) =
      chunk.recipients := by
    rw [map_map]
    exact (map_congr_left hcovered).trans (map_id _)
  have hsum : ((chunk.recipients.map (fanoutPayout settled.fanoutFeeRecipients)).map
      fun p => p.grossSats.val).sum = (chunk.recipients.map fun r => r.amountSats.val).sum := by
    rw [map_map]
    refine congrArg List.sum (map_congr_left fun r hr => ?_)
    exact congrArg Unsigned.val (fanoutPayout_grossSats (hfees r hr) (hpositive r hr))
  refine {
    derives := hderives
    outputs := canonicalFanoutOutputs_payouts hprepares.outputs
    chunkIndex := (congrArg Unsigned.val hprepares.chunkIndex).trans hindex
    mode := hprepares.mode
    leaf := hprepares.leaf
    entitlement := ?_
    covers := hchunk ▸ hperm
    value := ?_ }
  · rw [hprepares.chunkIndex]
    simp only [PreparedCtvFanout.covenantEntitlement, hprepares.recipientId, hprepares.orderKey,
      hprepares.program, hprepares.value]
  · rw [hprepares.value, (verifyPrecommitment_eq_ok hprepares.checked).funded, ← hsum, ← hfunded, sum_map_add]
    rfl

variable (ctx) in
structure Bound (coinbase : PayoutManifest) (prepared : PreparedCtvFanout) (manifest : CtvFanoutManifest) :
    Prop where
  precommitment : manifest.precommitment = prepared.precommitment
  leaf : manifest.commitmentWitnessLeafHex = prepared.commitmentWitnessLeafHex
  entitlement : manifest.covenantEntitlement = prepared.covenantEntitlement
  txHex : manifest.parentCoinbaseTxHex = coinbase.coinbaseTxHex
  txid : manifest.parentCoinbaseTxid = coinbase.coinbaseTxid
  checked : verifyCtvFanoutManifestStructure ctx.toCtvContext manifest = .ok ()

variable {request : CoinbaseBuildRequest}

theorem buildManifest_txHex {crypto : Crypto} {manifest : PayoutManifest}
    (h : buildManifest crypto request = .ok manifest) :
    ∃ bytes, manifest.coinbaseTxHex = Hex.encode bytes := by
  simp only [buildManifest, bind_eq_ok, pure_eq_ok] at h
  obtain ⟨built, -, _, -, _, -, _, -, rfl⟩ := h
  exact ⟨built.txWithWitness, rfl⟩

variable {coinbase : PayoutManifest} {mode : SettlementMode}

theorem bindFanout_eq_ok {chunk : SettlementFanoutChunk} {manifest : CtvFanoutManifest}
    (hcoinbase : buildManifest ctx.toCrypto request = .ok coinbase)
    (hprepared : ChunkPrepared ctx mode chunk prepared) (h : bindFanout ctx coinbase prepared = .ok manifest) :
    Bound ctx coinbase prepared manifest := by
  simp only [bindFanout, bind_eq_ok] at h
  obtain ⟨vout, -, hbuild⟩ := h
  obtain ⟨hsame, hbinds⟩ :=
    buildCtvFanoutManifestFromPrecommitment_eq_ok hprepared.derives hprepared.outputs hbuild
  obtain ⟨parent, hparent, htxid⟩ := hbinds.txid
  obtain ⟨bytes, hbytes⟩ := buildManifest_txHex hcoinbase
  refine ⟨hsame, ?_, ?_, ?_, ?_, hbinds.structure_ok⟩
  · have hleaf := hbinds.leaf
    rw [hsame] at hleaf
    exact Except.ok.inj (hleaf.symm.trans hprepared.leaf)
  · rw [hprepared.entitlement, CtvFanoutManifest.covenantEntitlement, hbinds.value, hsame]
  · have hnormal := hbinds.txHex
    rw [hbytes, normalizeHex_encode] at hnormal
    rw [hbytes, Except.ok.inj hnormal]
  · rw [htxid]
    exact buildManifest_txid hcoinbase hparent

variable (ctx) in
structure BoundSet (coinbase : PayoutManifest) (mode : SettlementMode)
    (preparedFanouts : List PreparedCtvFanout) (set : CtvFanoutManifestSet) : Prop where
  verified : verifyCtvFanoutManifestSet ctx.toCtvContext set = .ok ()
  members : List.Forall₂ (Bound ctx coinbase) preparedFanouts set.manifests
  txid : set.parentCoinbaseTxid = coinbase.coinbaseTxid
  mode : set.settlementMode = mode
  count : set.fanoutCount.val = preparedFanouts.length

theorem sortBy_chunkIndex {n : ℕ} (h : manifests.map (fun m => m.precommitment.chunkIndex.val) = List.range n) :
    sortBy (compareOn fun m : CtvFanoutManifest => m.precommitment.chunkIndex.val) manifests = manifests := by
  apply sortBy_of_pairwise
  have hsorted : (manifests.map fun m => m.precommitment.chunkIndex.val).Pairwise (· ≤ ·) := by
    rw [h]
    exact pairwise_le_range
  rw [pairwise_map] at hsorted
  exact hsorted.imp fun hle => Nat.isLE_compare.mpr hle

theorem buildCtvFanoutManifestSet_bound {set : CtvFanoutManifestSet}
    (hprepared : List.Forall₂ (ChunkPrepared ctx mode) chunks preparedFanouts)
    (hindices : chunks.map (·.chunkIndex) = List.range chunks.length)
    (hbound : List.Forall₂ (Bound ctx coinbase) preparedFanouts manifests)
    (h : buildCtvFanoutManifestSet ctx.toCtvContext manifests = .ok set) :
    BoundSet ctx coinbase mode preparedFanouts set := by
  have hchunks : manifests.map (fun m => m.precommitment.chunkIndex.val) = List.range chunks.length := by
    rw [← hindices, ← map_eq_of_forall₂ (fun chunk : SettlementFanoutChunk => chunk.chunkIndex)
      (fun prepared : PreparedCtvFanout => prepared.precommitment.chunkIndex.val) hprepared
      fun chunk prepared hchunk => hchunk.chunkIndex]
    refine map_eq_of_forall₂ _ _ hbound ?_
    intro prepared manifest hmanifest
    rw [hmanifest.precommitment]
  have hmember : ∀ manifest ∈ manifests, manifest.parentCoinbaseTxid = coinbase.coinbaseTxid ∧
      manifest.precommitment.settlementMode = mode := by
    intro manifest hmanifest
    obtain ⟨prepared, hmem, hbinds⟩ := exists_of_forall₂ hbound.flip hmanifest
    obtain ⟨chunk, -, hchunk⟩ := exists_of_forall₂ hprepared.flip hmem
    exact ⟨hbinds.txid, hbinds.precommitment ▸ hchunk.mode⟩
  simp only [buildCtvFanoutManifestSet, sortBy_chunkIndex hchunks, bind_eq_ok, okOr_eq_ok, pure_eq_ok,
    Unsigned.ofNat?_eq_some] at h
  obtain ⟨first, hfirst, _, -, _, -, _, -, count, hcount, ⟨⟩, hverified, rfl⟩ := h
  obtain ⟨htxid, hmode⟩ := hmember first (mem_of_head? hfirst)
  exact ⟨hverified, hbound, htxid, hmode, hcount.trans hbound.length_eq.symm⟩

theorem bindFanouts_eq_ok {fanoutSet : Option CtvFanoutManifestSet}
    (hcoinbase : buildManifest ctx.toCrypto request = .ok coinbase)
    (hprepared : List.Forall₂ (ChunkPrepared ctx mode) chunks preparedFanouts)
    (hindices : chunks.map (·.chunkIndex) = List.range chunks.length)
    (h : bindFanouts ctx coinbase preparedFanouts = .ok fanoutSet) :
    (preparedFanouts = [] ∧ fanoutSet = none) ∨
      ∃ set, preparedFanouts ≠ [] ∧ fanoutSet = some set ∧ BoundSet ctx coinbase mode preparedFanouts set := by
  unfold bindFanouts at h
  split_ifs at h with hempty
  · cases h
    exact .inl ⟨hempty, rfl⟩
  · simp only [bind_eq_ok, pure_eq_ok] at h
    obtain ⟨manifests, hmanifests, set, hset, rfl⟩ := h
    refine .inr ⟨set, hempty, rfl, buildCtvFanoutManifestSet_bound hprepared hindices ?_ hset⟩
    have hchunk : ∀ prepared ∈ preparedFanouts, ∃ chunk, ChunkPrepared ctx mode chunk prepared := by
      intro prepared hmem
      obtain ⟨chunk, -, hchunk⟩ := exists_of_forall₂ hprepared.flip hmem
      exact ⟨chunk, hchunk⟩
    refine ((List.forall₂_and_left _ _).mpr ⟨hchunk, mapM_eq_ok.mp hmanifests⟩).imp ?_
    rintro prepared manifest ⟨⟨chunk, hchunk⟩, hmanifest⟩
    exact bindFanout_eq_ok hcoinbase hchunk hmanifest

end QbitPrism
