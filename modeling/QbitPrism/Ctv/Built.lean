import Mathlib
import QbitPrism.Ctv.Accepted
import QbitPrism.Ctv.Build

/-!
# A built manifest carries its precommitment

The manifest is rebuilt from the precommitment's outputs, template and parent coinbase. What it
commits to is the precommitment it was built from, field for field.
-/
namespace QbitPrism
open MachineInt Checked ByteReader SortBy List

variable (ctx : CtvContext)

def CtvFanoutPayout.stated (payout : CtvFanoutPayout) : CtvFanoutPayout :=
  { payout with grossAmountSats := payout.grossSats }

@[simp] theorem CtvFanoutPayout.stated_grossSats (payout : CtvFanoutPayout) :
    payout.stated.grossSats = payout.grossSats := by
  unfold CtvFanoutPayout.grossSats
  change (if payout.grossSats = 0 then payout.amountSats else payout.grossSats) = payout.grossSats
  unfold CtvFanoutPayout.grossSats
  split_ifs <;> simp_all

theorem pushFanoutOutput_stated (state : List CtvFanoutOutput × List PayoutIdentity)
    (payout : CtvFanoutPayout) (index : ℕ) :
    pushFanoutOutput state (payout.stated, index) = pushFanoutOutput state (payout, index) := by
  simp only [pushFanoutOutput, CtvFanoutPayout.stated_grossSats]
  rfl

/-- What the outputs of a pass say of the payouts they were made from. -/
structure PushedOutputs (payouts : List CtvFanoutPayout) (outputs : List CtvFanoutOutput) : Prop where
  stated : outputs.map (·.payout) = payouts.map (·.stated)
  split : ∀ p ∈ payouts, p.grossSats.val = p.amountSats.val + p.feeSats.val

variable {payouts : List CtvFanoutPayout}

theorem pushFanoutOutput_pushed {out : List CtvFanoutOutput × List PayoutIdentity}
    (h : payouts.zipIdx.foldlM pushFanoutOutput ([], []) = .ok out) :
    PushedOutputs payouts out.1 := by
  rw [← zipIdx_map_fst 0 payouts]
  refine foldlM_ok_induction (fun done out => PushedOutputs (done.map Prod.fst) out.1) ?_ ?_ h
  · exact ⟨rfl, by simp⟩
  · rintro done ⟨payout, index⟩ ⟨outputs, seen⟩ out' ih hstep
    simp only [pushFanoutOutput, bind_eq_ok, ctvRequire_eq_ok, addSats_eq_ok, pure_eq_ok] at hstep
    obtain ⟨-, -, total, htotal, -, rfl, program, -, seen', -, rfl⟩ := hstep
    rw [map_append]
    refine ⟨?_, ?_⟩
    · rw [map_append, map_append, ih.stated]
      rfl
    · intro p hp
      rcases mem_append.mp hp with hp | hp
      · exact ih.split p hp
      · rw [mem_singleton.mp hp]
        exact htotal

theorem canonicalPayout_eq_ok {payout canonical : CtvFanoutPayout} :
    canonicalPayout payout = .ok canonical ↔
      ∃ program : Bytes 32, Hex.decode payout.p2mrProgramHex = .ok program.toList ∧
        canonical = { payout with p2mrProgramHex := Hex.encode program.toList } := by
  simp only [canonicalPayout, canonicalP2mrProgramHex, decodeProgramHex, bind_eq_ok, pure_eq_ok, decodeHashHex_eq_ok]
  constructor
  · rintro ⟨_, ⟨program, hprogram, rfl⟩, rfl⟩
    exact ⟨program, hprogram, rfl⟩
  · rintro ⟨program, hprogram, rfl⟩
    exact ⟨_, ⟨program, hprogram, rfl⟩, rfl⟩

theorem canonicalPayout_stated {payout canonical : CtvFanoutPayout} (h : canonicalPayout payout = .ok canonical) :
    canonicalPayout canonical.stated = .ok canonical.stated := by
  obtain ⟨program, -, rfl⟩ := canonicalPayout_eq_ok.mp h
  exact canonicalPayout_eq_ok.mpr ⟨program, Hex.decode_encode program.toList, rfl⟩

instance : Std.TransCmp fanoutPayoutCmp := by
  have : Std.TransCmp fun a b : CtvFanoutPayout => a.toPayoutIdentity.canonicalCmp b.toPayoutIdentity :=
    transCmp_comap _ _
  unfold fanoutPayoutCmp
  infer_instance

variable {outputs : List CtvFanoutOutput}

theorem canonicalFanoutOutputs_eq_ok (h : canonicalFanoutOutputs payouts = .ok outputs) :
    ∃ canonical, payouts.mapM canonicalPayout = .ok canonical ∧ canonical ≠ [] ∧
      (∃ seen, (sortBy fanoutPayoutCmp canonical).zipIdx.foldlM pushFanoutOutput ([], []) =
        .ok (outputs, seen)) ∧
      PushedOutputs (sortBy fanoutPayoutCmp canonical) outputs := by
  simp only [canonicalFanoutOutputs, bind_eq_ok, ctvRequire_eq_ok, pure_eq_ok, Prod.exists] at h
  obtain ⟨-, hne, canonical, hcanonical, outputs, seen, hpush, rfl⟩ := h
  refine ⟨canonical, hcanonical, ?_, ⟨seen, hpush⟩, pushFanoutOutput_pushed hpush⟩
  rw [← length_pos_iff, ← (mapM_eq_ok.mp hcanonical).length_eq]
  exact length_pos_iff.mpr hne

theorem mapM_eq_self {α : Type} {f : α → Except PrismError α} {xs : List α}
    (h : ∀ x ∈ xs, f x = .ok x) : xs.mapM f = .ok xs := by
  rw [mapM_eq_ok]
  induction xs with
  | nil => exact .nil
  | cons x xs ih =>
    exact .cons (h x mem_cons_self) (ih fun y hy => h y (mem_cons_of_mem x hy))

theorem canonicalFanoutOutputs_payouts (h : canonicalFanoutOutputs payouts = .ok outputs) :
    canonicalFanoutOutputs (outputs.map (·.payout)) = .ok outputs := by
  obtain ⟨canonical, hcanonical, hne, ⟨seen, hpush⟩, hpushed⟩ := canonicalFanoutOutputs_eq_ok h
  have hsame : ((sortBy fanoutPayoutCmp canonical).map (·.stated)).mapM canonicalPayout =
      .ok ((sortBy fanoutPayoutCmp canonical).map (·.stated)) := by
    apply mapM_eq_self
    intro x hx
    obtain ⟨payout, hpayout, rfl⟩ := mem_map.mp hx
    obtain ⟨source, -, hsource⟩ := mem_of_mapM_ok hcanonical ((mem_sortBy _).mp hpayout)
    exact canonicalPayout_stated hsource
  have hsorted : sortBy fanoutPayoutCmp ((sortBy fanoutPayoutCmp canonical).map (·.stated)) =
      (sortBy fanoutPayoutCmp canonical).map (·.stated) := by
    apply sortBy_of_pairwise
    rw [pairwise_map]
    exact sortBy_pairwise fanoutPayoutCmp canonical
  have hpushStated : ((sortBy fanoutPayoutCmp canonical).map (·.stated)).zipIdx.foldlM pushFanoutOutput
      ([], []) = .ok (outputs, seen) := by
    rw [zipIdx_map, foldlM_map, ← hpush]
    congr 1
    funext state x
    exact pushFanoutOutput_stated state x.1 x.2
  have hne' : (sortBy fanoutPayoutCmp canonical).map (·.stated) ≠ [] := by
    rw [Ne, map_eq_nil_iff, sortBy_eq_nil]
    exact hne
  simp only [hpushed.stated, canonicalFanoutOutputs, hsame, ok_bind, hsorted, hpushStated]
  rw [ctvRequire, require_of hne']
  rfl

theorem validateCanonicalHex_eq_ok {value fieldName : String}
    (h : validateCanonicalHex value fieldName = .ok ()) : ∃ bytes, value = Hex.encode bytes := by
  simp only [validateCanonicalHex, bind_eq_ok, ctvRequire_eq_ok] at h
  obtain ⟨bytes, -, hvalue⟩ := h
  exact ⟨bytes, hvalue⟩

theorem validateCanonicalSha256Hex_eq_ok {value fieldName : String}
    (h : validateCanonicalSha256Hex value fieldName = .ok ()) : ∃ bytes, value = Hex.encode bytes := by
  simp only [validateCanonicalSha256Hex, bind_eq_ok, ctvRequire_eq_ok] at h
  obtain ⟨hash, -, hvalue⟩ := h
  exact ⟨hash.toList, hvalue⟩

theorem checkPrecommitmentOutput_sums {scan : PrecommitmentScan}
    (h : outputs.zipIdx.foldlM checkPrecommitmentOutput { outputSum := 0, feeSum := 0, seen := [] } = .ok scan) :
    scan.outputSum.val = (outputs.map fun o => o.amountSats.val).sum ∧
      scan.feeSum.val = (outputs.map fun o => o.feeSats.val).sum := by
  rw [← zipIdx_map_fst 0 outputs]
  refine foldlM_ok_induction (fun done (scan : PrecommitmentScan) =>
    scan.outputSum.val = ((done.map Prod.fst).map fun o => o.amountSats.val).sum ∧
      scan.feeSum.val = ((done.map Prod.fst).map fun o => o.feeSats.val).sum) (by simp) ?_ h
  rintro done ⟨output, index⟩ scan scan' ⟨hsum, hfee⟩ hstep
  simp only [checkPrecommitmentOutput, bind_eq_ok, addSats_eq_ok, pure_eq_ok] at hstep
  obtain ⟨-, -, -, -, _, -, _, -, _, -, -, -, -, -, outputSum, hsum', feeSum, hfee', rfl⟩ := hstep
  simp only [map_append, sum_append, map_cons, map_nil, sum_cons, sum_nil, Nat.add_zero, ← hsum, ← hfee]
  exact ⟨hsum', hfee'⟩

structure CheckedPrecommitment (p : CtvFanoutPrecommitment) : Prop where
  template : ∃ bytes, p.fanoutTxTemplateHex = Hex.encode bytes
  rewardHash : ∃ bytes, p.rewardManifestSha256Hex = Hex.encode bytes
  policyHash : ∃ bytes, p.payoutPolicyManifestSha256Hex = Hex.encode bytes
  lockTime : p.fanoutLockTime = .wrapping p.blockHeight.val
  funded : p.covenantOutputValueSats.val = p.paidSats + p.feeTotal

variable {p : CtvFanoutPrecommitment}

theorem verifyPrecommitment_eq_ok (h : verifyPrecommitment p = .ok ()) :
    CheckedPrecommitment p := by
  simp only [verifyPrecommitment, bind_eq_ok, ctvRequire_eq_ok, addSats_eq_ok] at h
  obtain ⟨-, -, -, -, ⟨⟩, htemplate, -, -, -, -, _, -, -, -, -, -, ⟨⟩, hreward, ⟨⟩, hpolicy, -, -, _, -,
    -, -, -, hlock, -, -, scan, hscan, -, -, -, -, funded, hfunded, -, hvalue, -⟩ := h
  obtain ⟨hsum, hfee⟩ := checkPrecommitmentOutput_sums hscan
  refine ⟨validateCanonicalHex_eq_ok htemplate, validateCanonicalSha256Hex_eq_ok hreward,
    validateCanonicalSha256Hex_eq_ok hpolicy, hlock, ?_⟩
  rw [← hvalue, hfunded, hsum, hfee]
  rfl

@[simp] theorem decodeHashHex_encode (hash : Bytes 32) (fieldName : String) :
    decodeHashHex (Hex.encode hash.toList) fieldName = .ok hash :=
  decodeHashHex_eq_ok.mpr (Hex.decode_encode hash.toList)

theorem ctvLeafScriptHex_encode (ctvHash : Bytes 32) :
    ctvLeafScriptHex (Hex.encode ctvHash.toList) = .ok (Hex.encode (ctvLeafScript ctvHash)) := by
  rw [ctvLeafScriptHex, decodeHashHex_encode]
  rfl

theorem p2mrProgramForCtvLeafHex_encode (leafScript : List UInt8) :
    p2mrProgramForCtvLeafHex ctx (Hex.encode leafScript) =
      .ok (Hex.encode (p2mrTapleafHash ctx.toCrypto leafScript).toList) := by
  rw [p2mrProgramForCtvLeafHex, Hex.decode_encode]
  rfl

structure Prepares (input : CtvFanoutPrecommitmentInput) (prepared : PreparedCtvFanout) : Prop where
  outputs : canonicalFanoutOutputs input.payouts = .ok prepared.precommitment.outputs
  checked : verifyPrecommitment prepared.precommitment = .ok ()
  chunkIndex : prepared.precommitment.chunkIndex = input.chunkIndex
  mode : prepared.precommitment.settlementMode = input.settlementMode
  leaf : commitmentWitnessLeafHex ctx.toCrypto
    (ctx.sha256Hex (ctx.precommitmentBytes prepared.precommitment)) = .ok prepared.commitmentWitnessLeafHex
  recipientId : prepared.covenantRecipientId = s!"ctv-fanout-{input.chunkIndex.val}"
  orderKey : prepared.covenantOrderKey = "ctv-fanout-" ++ padded input.chunkIndex.val
  program : prepared.covenantP2mrProgramHex = prepared.precommitment.p2mrProgramHex
  value : prepared.covenantOutputValueSats = prepared.precommitment.covenantOutputValueSats

/-- The fields a precommitment derives from its template and its outputs. -/
structure Derives (p : CtvFanoutPrecommitment) : Prop where
  schema : p.schema = ctvFanoutPrecommitmentSchema
  inputIndex : p.fanoutInputIndex = 0
  controlBlock : p.p2mrControlBlockHex = Hex.encode p2mrControlBlock
  sequence : expectedFanoutSequence p.chunkIndex = .ok p.fanoutSequence
  outputSum : fanoutOutputSum p.outputs = .ok p.fanoutOutputSumSats
  feeSum : fanoutFeeSum p.outputs = .ok p.fanoutFeeSats
  anchorVout : anchorVoutForFee p.outputs.length p.fanoutFeeSats = .ok p.anchorVout
  covenant : ∃ template ctvHash,
    parseTransactionHex p.fanoutTxTemplateHex "fanout_tx_template_hex" = .ok template ∧
      defaultCtvHashForParsedTx ctx.toCrypto template 0 = .ok ctvHash ∧
      p.ctvHashHex = Hex.encode ctvHash.toList ∧
      p.ctvLeafScriptHex = Hex.encode (ctvLeafScript ctvHash) ∧
      p.p2mrProgramHex = Hex.encode (p2mrTapleafHash ctx.toCrypto (ctvLeafScript ctvHash)).toList ∧
      p.covenantScriptPubkeyHex = Hex.encode
        (p2mrScriptPubkey (p2mrTapleafHash ctx.toCrypto (ctvLeafScript ctvHash))).toList

variable {ctx}

theorem prepareCtvFanoutPrecommitment_eq_ok {input : CtvFanoutPrecommitmentInput}
    {prepared : PreparedCtvFanout} (h : prepareCtvFanoutPrecommitment ctx input = .ok prepared) :
    Prepares ctx input prepared ∧ Derives ctx prepared.precommitment := by
  simp only [prepareCtvFanoutPrecommitment, bind_eq_ok, pure_eq_ok] at h
  obtain ⟨-, -, outputs, houtputs, outputSum, houtputSum, feeSum, hfeeSum, value, -, sequence, hsequence,
    templateHex, -, ctvHashHex, hctvHash, leafScriptHex, hleafScript, programHex, hprogramHex, program,
    hprogram, anchorVout, hanchor, ⟨⟩, hchecked, leaf, hleaf, rfl⟩ := h
  refine ⟨⟨houtputs, hchecked, rfl, rfl, hleaf, rfl, rfl, rfl, rfl⟩,
    ⟨rfl, rfl, rfl, hsequence, houtputSum, hfeeSum, hanchor, ?_⟩⟩
  simp only [defaultCtvHashHex, bind_eq_ok, pure_eq_ok] at hctvHash
  obtain ⟨template, htemplate, ctvHash, hhash, rfl⟩ := hctvHash
  cases (ctvLeafScriptHex_encode ctvHash).symm.trans hleafScript
  cases (p2mrProgramForCtvLeafHex_encode ctx (ctvLeafScript ctvHash)).symm.trans hprogramHex
  cases (decodeHashHex_encode _ _).symm.trans hprogram
  exact ⟨template, ctvHash, parseTransactionHex_field htemplate _, hhash, rfl, rfl, rfl, rfl⟩

variable (ctx) in
/-- What a manifest built around a parent coinbase says of it. -/
structure BindsParent (parentTxHex : String) (manifest : CtvFanoutManifest) : Prop where
  structure_ok : verifyCtvFanoutManifestStructure ctx manifest = .ok ()
  txHex : normalizeHex parentTxHex = .ok manifest.parentCoinbaseTxHex
  txid : ∃ parent, parseTransactionHex parentTxHex "parent_coinbase_tx_hex" = .ok parent ∧
    manifest.parentCoinbaseTxid = parent.txidHex ctx.toCrypto
  leaf : commitmentWitnessLeafHex ctx.toCrypto
    (ctx.sha256Hex (ctx.precommitmentBytes manifest.precommitment)) = .ok manifest.commitmentWitnessLeafHex
  value : manifest.covenantOutputValueSats = manifest.precommitment.covenantOutputValueSats

theorem normalizeHex_encode (bytes : List UInt8) : normalizeHex (Hex.encode bytes) = .ok (Hex.encode bytes) := by
  rw [normalizeHex, Hex.decode_encode]
  rfl

theorem toLower_encode (bytes : List UInt8) : (Hex.encode bytes).toLower = Hex.encode bytes :=
  Hex.toLower_of_decode (Hex.decode_encode bytes)

theorem Derives.ext {q : CtvFanoutPrecommitment} (hp : Derives ctx p) (hq : Derives ctx q)
    (hpc : CheckedPrecommitment p) (hqc : CheckedPrecommitment q)
    (hheight : q.blockHeight = p.blockHeight) (hindex : q.chunkIndex = p.chunkIndex)
    (hcount : q.chunkCount = p.chunkCount) (hvalue : q.coinbaseValueSats = p.coinbaseValueSats)
    (hmode : q.settlementMode = p.settlementMode)
    (htemplate : q.fanoutTxTemplateHex = p.fanoutTxTemplateHex)
    (hreward : q.rewardManifestSha256Hex = p.rewardManifestSha256Hex)
    (hpolicy : q.payoutPolicyManifestSha256Hex = p.payoutPolicyManifestSha256Hex)
    (houtputs : q.outputs = p.outputs) : q = p := by
  have hcovenant : q.covenantOutputValueSats = p.covenantOutputValueSats := by
    apply Unsigned.ext
    rw [hpc.funded, hqc.funded, CtvFanoutPrecommitment.paidSats, CtvFanoutPrecommitment.feeTotal, houtputs]
    rfl
  have hlock : q.fanoutLockTime = p.fanoutLockTime := by
    rw [hpc.lockTime, hqc.lockTime, hheight]
  have hsequence : q.fanoutSequence = p.fanoutSequence :=
    Except.ok.inj (hq.sequence.symm.trans (hindex ▸ hp.sequence))
  have hsum : q.fanoutOutputSumSats = p.fanoutOutputSumSats :=
    Except.ok.inj (hq.outputSum.symm.trans (houtputs ▸ hp.outputSum))
  have hfee : q.fanoutFeeSats = p.fanoutFeeSats :=
    Except.ok.inj (hq.feeSum.symm.trans (houtputs ▸ hp.feeSum))
  have hanchor : q.anchorVout = p.anchorVout := by
    have hvout := hq.anchorVout
    rw [houtputs, hfee, hp.anchorVout] at hvout
    exact (Except.ok.inj hvout).symm
  obtain ⟨template, ctvHash, hparse, hhash, hctv, hleaf, hprogram, hscript⟩ := hp.covenant
  obtain ⟨template', ctvHash', hparse', hhash', hctv', hleaf', hprogram', hscript'⟩ := hq.covenant
  rw [htemplate, hparse] at hparse'
  cases hparse'
  cases hhash.symm.trans hhash'
  cases p
  cases q
  simp only [CtvFanoutPrecommitment.mk.injEq]
  exact ⟨hq.schema.trans hp.schema.symm, hheight, hindex, hcount, hvalue, hmode, hcovenant,
    hscript'.trans hscript.symm, htemplate, hq.inputIndex.trans hp.inputIndex.symm, hsequence, hlock, hsum,
    hfee, hanchor, hctv'.trans hctv.symm, hleaf'.trans hleaf.symm, hprogram'.trans hprogram.symm,
    hq.controlBlock.trans hp.controlBlock.symm, hreward, hpolicy, houtputs⟩

variable {manifest : CtvFanoutManifest}

theorem verifyCtvFanoutManifestStructure_checked (h : verifyCtvFanoutManifestStructure ctx manifest = .ok ()) :
    CheckedPrecommitment manifest.precommitment := by
  simp only [verifyCtvFanoutManifestStructure, bind_eq_ok] at h
  obtain ⟨-, -, ⟨⟩, hchecked, -⟩ := h
  exact verifyPrecommitment_eq_ok hchecked

variable (ctx) in
structure Manifests (input : CtvFanoutManifestInput) (manifest : CtvFanoutManifest) : Prop where
  binds : BindsParent ctx input.parentCoinbaseTxHex manifest
  derives : Derives ctx manifest.precommitment
  height : manifest.precommitment.blockHeight = input.blockHeight
  chunkIndex : manifest.precommitment.chunkIndex = input.chunkIndex
  chunkCount : manifest.precommitment.chunkCount = input.chunkCount
  coinbaseValue : manifest.precommitment.coinbaseValueSats = input.coinbaseValueSats
  mode : manifest.precommitment.settlementMode = input.settlementMode
  template : manifest.precommitment.fanoutTxTemplateHex = input.fanoutTxTemplateHex
  reward : manifest.precommitment.rewardManifestSha256Hex = input.rewardManifestSha256Hex.toLower
  policy : manifest.precommitment.payoutPolicyManifestSha256Hex = input.payoutPolicyManifestSha256Hex.toLower
  outputs : canonicalFanoutOutputs input.payouts = .ok manifest.precommitment.outputs

theorem buildCtvFanoutManifest_eq_ok {input : CtvFanoutManifestInput} {templateBytes : List UInt8}
    (hcanonical : input.fanoutTxTemplateHex = Hex.encode templateBytes)
    (h : buildCtvFanoutManifest ctx input = .ok manifest) : Manifests ctx input manifest := by
  simp only [buildCtvFanoutManifest, bind_eq_ok, pure_eq_ok, ctvRequire_eq_ok] at h
  obtain ⟨-, -, parent, hparent, -, -, template, htemplate, fanout, -, -, -, covenantOutput, -, ctvHash,
    hctvHash, finalHash, -, -, rfl, fanoutInput, -, sequence, hsequence, -, rfl, outputs, houtputs,
    outputSum, houtputSum, feeSum, hfeeSum, anchorVout, hanchor, templateHex, htemplateHex, leaf, hleaf,
    parentHex, hparentHex, fanoutHex, -, ⟨⟩, hstructure, rfl⟩ := h
  have hsame : templateHex = input.fanoutTxTemplateHex := by
    rw [hcanonical, normalizeHex_encode] at htemplateHex
    rw [hcanonical, Except.ok.inj htemplateHex]
  subst hsame
  exact {
    binds := ⟨hstructure, hparentHex, ⟨parent, hparent, rfl⟩, hleaf, rfl⟩
    derives := ⟨rfl, rfl, rfl, hsequence, houtputSum, hfeeSum, hanchor,
      ⟨template, finalHash, htemplate, hctvHash, rfl, rfl, rfl, rfl⟩⟩
    height := rfl
    chunkIndex := rfl
    chunkCount := rfl
    coinbaseValue := rfl
    mode := rfl
    template := rfl
    reward := rfl
    policy := rfl
    outputs := houtputs }

theorem buildCtvFanoutManifestFromPrecommitment_eq_ok {parentTxHex : String} {vout : U32} (hp : Derives ctx p)
    (houtputs : canonicalFanoutOutputs (p.outputs.map (·.payout)) = .ok p.outputs)
    (h : buildCtvFanoutManifestFromPrecommitment ctx p parentTxHex vout = .ok manifest) :
    manifest.precommitment = p ∧ BindsParent ctx parentTxHex manifest := by
  simp only [buildCtvFanoutManifestFromPrecommitment, bind_eq_ok] at h
  obtain ⟨⟨⟩, hverified, _, -, -, -, _, -, _, -, hbuild⟩ := h
  have hchecked := verifyPrecommitment_eq_ok hverified
  obtain ⟨templateBytes, htemplate⟩ := hchecked.template
  obtain ⟨rewardBytes, hreward⟩ := hchecked.rewardHash
  obtain ⟨policyBytes, hpolicy⟩ := hchecked.policyHash
  have hmade := buildCtvFanoutManifest_eq_ok htemplate hbuild
  refine ⟨?_, hmade.binds⟩
  refine hp.ext hmade.derives hchecked
    (verifyCtvFanoutManifestStructure_checked hmade.binds.structure_ok) hmade.height hmade.chunkIndex
    hmade.chunkCount hmade.coinbaseValue hmade.mode hmade.template ?_ ?_ ?_
  · rw [hmade.reward, hreward, toLower_encode]
  · rw [hmade.policy, hpolicy, toLower_encode]
  · exact Except.ok.inj (hmade.outputs.symm.trans houtputs)

end QbitPrism
