import Mathlib
import QbitPrism.Ctv.Built

/-!
# A prepared fanout can be finalised

The covenant hash leaves out the outpoint and the witness. So the transaction that spends a mined
covenant output has the hash its precommitment was made with, and every check of the manifest passes.
-/
namespace QbitPrism
open MachineInt Checked ByteReader SortBy List

theorem ctvRequire_of {c : Prop} [Decidable c] {reason : String} (h : c) :
    ctvRequire c reason = .ok () := require_of h

def fanoutTxIn (txid : Bytes 32) (vout sequence : U32) : ParsedTxIn :=
  { prevTxidHex := Hex.encode txid.toList, prevVout := vout, scriptSig := [], sequence }

def fanoutTxInputSpec (txid : Bytes 32) (vout sequence : U32) (witnessStack : List (List UInt8)) :
    TxInputSpec :=
  (fanoutTxIn txid vout sequence).withStack witnessStack

theorem fanoutTxInputSpec_parsed (txid : Bytes 32) (vout sequence : U32) (stack : List (List UInt8)) :
    (fanoutTxInputSpec txid vout sequence stack).wire.parsed = fanoutTxIn txid vout sequence := by
  have htxid : (fanoutTxInputSpec txid vout sequence stack).HasTxid := ⟨txid, Hex.decode_encode _⟩
  rw [← htxid.parsed_eq, TxInputSpec.parsed]
  simp only [fanoutTxInputSpec, ParsedTxIn.withStack, fanoutTxIn, toLower_encode]

structure FanoutTx (input : ParsedTxIn) (outputs : List ParsedTxOut) (lockTime : U32)
    (witness : Option (List (List (List UInt8)))) (txHex : String) (tx : ParsedTransaction) : Prop where
  canonical : ∃ bytes, txHex = Hex.encode bytes
  parses : ∀ fieldName, parseTransactionHex txHex fieldName = .ok tx
  version : tx.version = .wrapping ctvFanoutTxVersion
  inputs : tx.inputs = [input]
  outputs : tx.outputs = outputs
  lockTime : tx.lockTime = lockTime
  witness : tx.witnessStacks = witness

variable {outputs : List CtvFanoutOutput}

/-- The payouts, and the anchor after them. -/
def withAnchor (payouts : List TxOutputSpec) (anchor : Bool) : List TxOutputSpec :=
  payouts ++ if anchor then [p2aAnchorOutputSpec] else []

theorem fanoutTxHex_reads {anchor : Bool} {specs : List TxOutputSpec} (txid : Bytes 32) (vout lockTime sequence : U32)
    (stack : List (List UInt8)) (withWitness : Bool) (hspecs : fanoutOutputSpecs outputs anchor = .ok specs)
    (hspec : ∀ spec ∈ specs, spec.amountSats.val ≤ qbitMaxMoneySats ∧ spec.scriptPubkey.length < 2 ^ 64)
    (hcount : specs.length < 2 ^ 64) (hstack : stack.length < 2 ^ 64) (hitem : ∀ item ∈ stack, item.length < 2 ^ 64) :
    ∃ txHex tx, fanoutTxHex (Hex.encode txid.toList) vout outputs anchor lockTime sequence stack
        withWitness = .ok txHex ∧
      FanoutTx (fanoutTxIn txid vout sequence) specs lockTime (if withWitness then some [stack] else none)
        txHex tx := by
  have htxid : ∀ input ∈ [fanoutTxInputSpec txid vout sequence stack], input.HasTxid := by
    simp only [mem_singleton, forall_eq]
    exact ⟨txid, Hex.decode_encode _⟩
  have hsize : Sized ([fanoutTxInputSpec txid vout sequence stack].map TxInputSpec.wire) specs :=
    ⟨by simp, hcount, by simp [TxInputSpec.wire, fanoutTxInputSpec, fanoutTxIn, ParsedTxIn.withStack],
      by simpa [TxInputSpec.wire, fanoutTxInputSpec, ParsedTxIn.withStack] using hstack,
      by simpa [TxInputSpec.wire, fanoutTxInputSpec, ParsedTxIn.withStack] using hitem,
      fun spec hmem => (hspec spec hmem).2⟩
  refine ⟨_, _, ?_, ⟨⟨_, rfl⟩, fun fieldName => (parseTransactionHex_encode _ fieldName).trans
    (parseTransaction_unmarked fieldName (.wrapping ctvFanoutTxVersion) lockTime withWitness (by simp)
      (fun spec hmem => (hspec spec hmem).1) hsize), rfl, ?_, rfl, rfl, rfl⟩⟩
  · simp only [fanoutTxHex, normalizeTxidHex, decodeHashHex_encode, ok_bind, hspecs]
    exact congrArg (· >>= fun tx => pure (Hex.encode tx)) (serializeTx_eq htxid withWitness)
  · exact congrArg (fun input => [input]) (fanoutTxInputSpec_parsed txid vout sequence stack)

theorem defaultCtvHash_congr (crypto : Crypto) {tx tx' : ParsedTransaction} {input input' : ParsedTxIn}
    (hversion : tx.version = tx'.version) (hlock : tx.lockTime = tx'.lockTime)
    (houtputs : tx.outputs = tx'.outputs) (hinputs : tx.inputs = [input]) (hinputs' : tx'.inputs = [input'])
    (hscript : input.scriptSig = input'.scriptSig) (hsequence : input.sequence = input'.sequence) (index : ℕ) :
    defaultCtvHashForParsedTx crypto tx index = defaultCtvHashForParsedTx crypto tx' index := by
  simp only [defaultCtvHashForParsedTx, hversion, hlock, houtputs, hinputs, hinputs', flatMap_cons,
    flatMap_nil, hscript, hsequence, mem_singleton, exists_eq_left]
  rfl

/-- What the checks say of the output at a place. -/
structure CheckedOutput (output : CtvFanoutOutput) (index : ℕ) (program : Bytes 32) : Prop where
  vout : output.vout = .wrapping index
  positive : output.amountSats ≠ 0
  decoded : Hex.decode output.p2mrProgramHex = .ok program.toList
  script : output.scriptPubkeyHex = Hex.encode (p2mrScriptPubkey program).toList

def CheckedOutputs (outputs : List CtvFanoutOutput) : Prop :=
  ∀ x ∈ outputs.zipIdx, ∃ program, CheckedOutput x.1 x.2 program

variable {output : CtvFanoutOutput} {coinbaseHex : String} {coinbase : ParsedTransaction}

theorem CheckedOutputs.exists (h : CheckedOutputs outputs) (houtput : output ∈ outputs) :
    ∃ index program, CheckedOutput output index program := by
  rw [← zipIdx_map_fst 0 outputs] at houtput
  obtain ⟨x, hx, rfl⟩ := mem_map.mp houtput
  exact ⟨x.2, h x hx⟩

theorem checkPrecommitmentOutput_checked {scan : PrecommitmentScan}
    (h : outputs.zipIdx.foldlM checkPrecommitmentOutput { outputSum := 0, feeSum := 0, seen := [] } = .ok scan) :
    CheckedOutputs outputs := by
  refine foldlM_ok_induction (fun done _ => ∀ x ∈ done, ∃ program, CheckedOutput x.1 x.2 program) (by simp) ?_ h
  rintro done ⟨output, index⟩ scan scan' hdone hstep
  simp only [checkPrecommitmentOutput, decodeProgramHex, bind_eq_ok, ctvRequire_eq_ok, decodeHashHex_eq_ok]
    at hstep
  obtain ⟨-, hvout, -, hpositive, _, -, _, -, program, hprogram, -, -, -, hscript, -⟩ := hstep
  intro x hx
  rcases mem_append.mp hx with hx | hx
  · exact hdone x hx
  · rw [mem_singleton.mp hx]
    exact ⟨program, hvout, hpositive, hprogram, hscript.symm⟩

theorem CheckedOutput.pays {index : ℕ} {program : Bytes 32} (h : CheckedOutput output index program) :
    ∃ spec, outputSpecFromFanoutOutput output = .ok spec ∧ PaysFanout output spec := by
  refine ⟨⟨output.amountSats, (p2mrScriptPubkey program).toList⟩, ?_, rfl, program, h.decoded, rfl⟩
  rw [outputSpecFromFanoutOutput, h.script, Hex.decode_encode]
  rfl

theorem PaysFanout.length_script {payout : CtvFanoutOutput} {output : ParsedTxOut} (h : PaysFanout payout output) :
    output.scriptPubkey.length = 34 := by
  obtain ⟨program, -, hscript⟩ := h.script
  rw [hscript, List.Vector.toList_length]

theorem fanoutOutputSpecs_pays (anchor : Bool) (h : CheckedOutputs outputs) :
    ∃ payouts, List.Forall₂ PaysFanout outputs payouts ∧
      fanoutOutputSpecs outputs anchor = .ok (withAnchor payouts anchor) := by
  have hspec : ∀ output ∈ outputs, ∃ spec, outputSpecFromFanoutOutput output = .ok spec ∧
      PaysFanout output spec := by
    intro output houtput
    obtain ⟨index, program, hchecked⟩ := h.exists houtput
    exact hchecked.pays
  obtain ⟨payouts, hpayouts⟩ := mapM_isOk outputSpecFromFanoutOutput fun output houtput =>
    (hspec output houtput).imp fun _ => And.left
  refine ⟨payouts, ?_, ?_⟩
  · refine ((List.forall₂_and_left _ _).mpr ⟨fun output houtput => houtput, mapM_eq_ok.mp hpayouts⟩).imp ?_
    rintro output spec ⟨houtput, hsame⟩
    obtain ⟨spec', hspec', hpays⟩ := hspec output houtput
    cases hsame.symm.trans hspec'
    exact hpays
  · rw [fanoutOutputSpecs, hpayouts]
    cases anchor with
    | true => rfl
    | false => exact congrArg Except.ok (append_nil payouts).symm

variable {payouts : List ParsedTxOut}

theorem checkFanoutOutput_isOk (hchecked : CheckedOutputs outputs) (hpays : List.Forall₂ PaysFanout outputs payouts)
    (hsum : (outputs.map fun o => o.amountSats.val).sum + (outputs.map fun o => o.feeSats.val).sum < 2 ^ 64) :
    ∃ sums, (payouts.zip outputs).zipIdx.foldlM checkFanoutOutput { outputSum := 0, feeSum := 0 } = .ok sums ∧
      sums.outputSum.val = (outputs.map fun o => o.amountSats.val).sum ∧
      sums.feeSum.val = (outputs.map fun o => o.feeSats.val).sum := by
  have hsnd : ((payouts.zip outputs).zipIdx.map fun x => x.1.2) = outputs := by
    rw [show (fun x : (ParsedTxOut × CtvFanoutOutput) × ℕ => x.1.2) = Prod.snd ∘ Prod.fst from rfl,
      ← map_map, zipIdx_map_fst, map_snd_zip hpays.length_eq.le]
  have hitem : ∀ x ∈ (payouts.zip outputs).zipIdx, PaysFanout x.1.2 x.1.1 ∧
      ∃ program, CheckedOutput x.1.2 x.2 program := by
    rintro ⟨⟨output, payout⟩, index⟩ hx
    have hget := mem_zipIdx_iff_getElem?.mp hx
    have hmem := mem_of_getElem? hget
    refine ⟨List.forall₂_zip hpays ?_, hchecked (payout, index) (mem_zipIdx_iff_getElem?.mpr ?_)⟩
    · rw [← zip_swap]
      exact mem_map.mpr ⟨_, hmem, rfl⟩
    · exact (List.getElem?_zip_eq_some.mp hget).2
  have hbound : ∀ (f : CtvFanoutOutput → ℕ) (part : List ((ParsedTxOut × CtvFanoutOutput) × ℕ)),
      part <+: (payouts.zip outputs).zipIdx → (part.map fun x => f x.1.2).sum ≤ (outputs.map f).sum := by
    intro f part hpart
    have hsub := (hpart.sublist.map fun x : (ParsedTxOut × CtvFanoutOutput) × ℕ => x.1.2).map f
    rw [hsnd, map_map] at hsub
    exact hsub.sum_le_sum (by simp)
  have hfold := foldlM_isOk checkFanoutOutput (payouts.zip outputs).zipIdx { outputSum := 0, feeSum := 0 }
    (fun done sums => sums.outputSum.val = (done.map fun x => x.1.2.amountSats.val).sum ∧
      sums.feeSum.val = (done.map fun x => x.1.2.feeSats.val).sum) (by simp) ?_
  · obtain ⟨sums, hsums, houtputSum, hfeeSum⟩ := hfold
    refine ⟨sums, hsums, ?_, ?_⟩
    · rw [houtputSum, ← hsnd, map_map, hsnd]
      rfl
    · rw [hfeeSum, ← hsnd, map_map, hsnd]
      rfl
  · rintro done ⟨⟨output, payout⟩, index⟩ sums hpart ⟨houtputs, hfees⟩
    obtain ⟨⟨hamount, program', hprogram', hscript⟩, program, hout⟩ :=
      hitem ((output, payout), index) (hpart.subset (by simp))
    obtain rfl : program = program' :=
      List.Vector.eq _ _ (Except.ok.inj (hout.decoded.symm.trans hprogram'))
    replace hamount : output.amountSats = payout.amountSats := hamount
    have hamounts := hbound (fun o => o.amountSats.val) _ hpart
    have hfeeBound := hbound (fun o => o.feeSats.val) _ hpart
    simp only [map_append, map_cons, map_nil, sum_append, sum_cons, sum_nil, Nat.add_zero] at hamounts hfeeBound ⊢
    obtain ⟨outputSum, houtputSum⟩ : ∃ total : U64, total.val = sums.outputSum.val + output.amountSats.val :=
      ⟨⟨_, by rw [hamount]; omega⟩, rfl⟩
    obtain ⟨feeSum, hfeeSum⟩ : ∃ total : U64, total.val = sums.feeSum.val + payout.feeSats.val :=
      ⟨⟨_, by omega⟩, rfl⟩
    refine ⟨{ outputSum, feeSum }, ?_, by rw [houtputSum, houtputs, hamount], by rw [hfeeSum, hfees]⟩
    simp only [checkFanoutOutput, decodeProgramHex, bind_eq_ok, ctvRequire_eq_ok, addSats_eq_ok,
      decodeHashHex_eq_ok, pure_eq_ok]
    exact ⟨outputSum, houtputSum, feeSum, hfeeSum, (), hout.vout, (), hamount, program, hout.decoded, (), hscript,
      (), hout.script.symm, rfl⟩

/-- What finalising needs to know of a precommitment. -/
structure Finalisable (ctx : CtvContext) (p : CtvFanoutPrecommitment) : Prop where
  derives : Derives ctx p
  checked : verifyPrecommitment p = .ok ()
  outputs : canonicalFanoutOutputs (p.outputs.map (·.payout)) = .ok p.outputs
  template : unsignedFanoutTxHex (Hex.encode (List.replicate 32 0)) 0 p.outputs p.anchorVout.isSome
    p.fanoutLockTime p.fanoutSequence = .ok p.fanoutTxTemplateHex
  height : p.blockHeight.val ≤ 0xffffffff
  mode : p.settlementMode ≠ .directCoinbase

theorem anchorVoutForFee_isSome {outputCount : ℕ} {fee : U64} {anchorVout : Option U32}
    (h : anchorVoutForFee outputCount fee = .ok anchorVout) :
    anchorVout.isSome = fanoutHasCpfpAnchor fee := by
  unfold anchorVoutForFee at h
  split_ifs at h with hanchor
  · simp only [bind_eq_ok, pure_eq_ok] at h
    obtain ⟨vout, -, rfl⟩ := h
    exact hanchor.symm
  · cases h
    simpa using hanchor

variable {input : CtvFanoutPrecommitmentInput} {ctx : CtvContext} {prepared : PreparedCtvFanout}

theorem prepareCtvFanoutPrecommitment_finalisable (h : prepareCtvFanoutPrecommitment ctx input = .ok prepared) :
    Finalisable ctx prepared.precommitment ∧
      prepared.precommitmentSha256Hex = ctx.sha256Hex (ctx.precommitmentBytes prepared.precommitment) := by
  obtain ⟨hprepares, hderives⟩ := prepareCtvFanoutPrecommitment_eq_ok h
  have hanchor := anchorVoutForFee_isSome hderives.anchorVout
  simp only [prepareCtvFanoutPrecommitment, checkFanoutInput, bind_eq_ok, pure_eq_ok, ctvRequire_eq_ok] at h
  obtain ⟨-, ⟨-, hheight, -, hmode, -⟩, outputs, -, outputSum, -, feeSum, -, value, -, sequence, -, templateHex,
    htemplate, ctvHashHex, -, leafScriptHex, -, programHex, -, program, -, anchorVout, -, -, -, leaf, -, rfl⟩ := h
  exact ⟨⟨hderives, hprepares.checked, canonicalFanoutOutputs_payouts hprepares.outputs, hanchor ▸ htemplate,
    hheight, hmode⟩, rfl⟩

/-- The parts of the check that the manifest's own checks repeat. -/
structure PrecommitmentParts (p : CtvFanoutPrecommitment) : Prop where
  outputs : CheckedOutputs p.outputs
  outputSum : p.fanoutOutputSumSats.val = p.paidSats
  feeSum : p.fanoutFeeSats.val = p.feeTotal
  chunk : validateChunkIdentity p.chunkIndex p.chunkCount = .ok ()
  reward : ∃ hash : Bytes 32, p.rewardManifestSha256Hex = Hex.encode hash.toList
  policy : ∃ hash : Bytes 32, p.payoutPolicyManifestSha256Hex = Hex.encode hash.toList
  anchor : checkAnchorVout p = .ok ()

variable {p : CtvFanoutPrecommitment}

theorem verifyPrecommitment_parts (h : verifyPrecommitment p = .ok ()) : PrecommitmentParts p := by
  simp only [verifyPrecommitment, validateCanonicalSha256Hex, bind_eq_ok, ctvRequire_eq_ok, addSats_eq_ok] at h
  obtain ⟨-, -, -, -, -, -, -, -, -, -, _, -, -, -, -, -, -, ⟨reward, -, hreward⟩, -, ⟨policy, -, hpolicy⟩, ⟨⟩,
    hchunk, _, -, -, -, -, -, -, -, scan, hscan, -, hsum, -, hfee, funded, -, -, -, hanchor⟩ := h
  obtain ⟨hsums, hfees⟩ := checkPrecommitmentOutput_sums hscan
  exact ⟨checkPrecommitmentOutput_checked hscan, hsum ▸ hsums, hfee ▸ hfees, hchunk, ⟨reward, hreward⟩,
    ⟨policy, hpolicy⟩, hanchor⟩

theorem validateSha256Hex_encode (hash : Bytes 32) (fieldName : String) :
    validateSha256Hex (Hex.encode hash.toList) fieldName = .ok () := by
  rw [validateSha256Hex, decodeHashHex_encode]
  rfl

theorem validateCanonicalSha256Hex_encode (hash : Bytes 32) (fieldName : String) :
    validateCanonicalSha256Hex (Hex.encode hash.toList) fieldName = .ok () := by
  rw [validateCanonicalSha256Hex, decodeHashHex_encode, ok_bind, ctvRequire_of rfl]

theorem validateCanonicalHex_encode (bytes : List UInt8) (fieldName : String) :
    validateCanonicalHex (Hex.encode bytes) fieldName = .ok () := by
  rw [validateCanonicalHex, decodeFieldHex, Hex.decode_encode]
  exact ctvRequire_of rfl

theorem payouts_bounded (hparts : PrecommitmentParts p)
    (hfunded : p.covenantOutputValueSats.val = p.paidSats + p.feeTotal) :
    (∀ output ∈ p.outputs, output.amountSats.val ≤ p.covenantOutputValueSats.val) ∧
      p.outputs.length ≤ p.covenantOutputValueSats.val := by
  constructor
  · intro output houtput
    have hle : output.amountSats.val ≤ p.paidSats :=
      single_le_sum (fun _ _ => Nat.zero_le _) _ (mem_map_of_mem houtput)
    omega
  · have hle : p.outputs.length ≤ p.paidSats := by
      rw [CtvFanoutPrecommitment.paidSats, ← length_map (fun o : CtvFanoutOutput => o.amountSats.val)]
      apply length_le_sum_of_one_le
      intro amount hamount
      obtain ⟨output, houtput, rfl⟩ := mem_map.mp hamount
      obtain ⟨index, program, hchecked⟩ := hparts.outputs.exists houtput
      exact Nat.one_le_iff_ne_zero.mpr fun hzero =>
        hchecked.positive (Unsigned.ext (hzero.trans Unsigned.val_zero.symm))
    omega

theorem verifyFanoutAnchor_isOk {fanout : ParsedTransaction} (hparts : PrecommitmentParts p)
    (hlength : payouts.length = p.outputs.length)
    (houtputs : fanout.outputs = withAnchor payouts p.anchorVout.isSome) :
    verifyFanoutAnchor p fanout = .ok () := by
  have hanchor := hparts.anchor
  unfold verifyFanoutAnchor
  unfold checkAnchorVout at hanchor
  cases hvout : p.anchorVout with
  | none => rfl
  | some vout =>
    simp only [hvout, bind_eq_ok, ctvRequire_eq_ok] at hanchor
    have hlast : fanout.outputs[p.outputs.length]? = some p2aAnchorOutputSpec := by
      rw [houtputs, hvout, ← hlength]
      simp [withAnchor]
    rw [hlast]
    simp only [okOr_some, ok_bind, ensureFeeAnchorOutput, bind_eq_ok, ctvRequire_eq_ok]
    exact ⟨(), hanchor.choose_spec.2, (), rfl, rfl⟩

theorem verifyFanoutOutputs_isOk {manifest : CtvFanoutManifest} {fanout : ParsedTransaction}
    (hparts : PrecommitmentParts manifest.precommitment)
    (hpays : List.Forall₂ PaysFanout manifest.precommitment.outputs payouts)
    (houtputs : fanout.outputs = withAnchor payouts manifest.precommitment.anchorVout.isSome)
    (hvalue : manifest.covenantOutputValueSats.val = manifest.precommitment.paidSats + manifest.precommitment.feeTotal) :
    verifyFanoutOutputs manifest fanout = .ok () := by
  have hlength := hpays.length_eq
  obtain ⟨sums, hsums, houtputSum, hfeeSum⟩ := checkFanoutOutput_isOk hparts.outputs hpays
    (hvalue ▸ manifest.covenantOutputValueSats.isLt)
  have hzip : fanout.outputs.zip manifest.precommitment.outputs = payouts.zip manifest.precommitment.outputs := by
    rw [houtputs, withAnchor, ← append_nil manifest.precommitment.outputs, zip_append (by simpa using hlength.symm),
      zip_nil_right, append_nil, append_nil]
  have hcount : fanout.outputs.length = manifest.precommitment.outputs.length +
      if manifest.precommitment.anchorVout.isSome then 1 else 0 := by
    rw [houtputs, withAnchor, length_append, hlength]
    split_ifs <;> rfl
  simp only [verifyFanoutOutputs, bind_eq_ok, ctvRequire_eq_ok, addSats_eq_ok]
  refine ⟨(), hcount, sums, hzip ▸ hsums, (), Unsigned.ext (houtputSum.trans hparts.outputSum.symm), (),
    Unsigned.ext (hfeeSum.trans hparts.feeSum.symm), (), verifyFanoutAnchor_isOk hparts hlength.symm houtputs,
    manifest.covenantOutputValueSats, ?_, rfl⟩
  rw [hvalue, houtputSum, hfeeSum]
  rfl

/-- A block's coinbase, read, and its output that a precommitment's covenant is paid by. -/
structure PaysCovenant (p : CtvFanoutPrecommitment) (parentTxHex : String) (parent : ParsedTransaction)
    (vout : U32) : Prop where
  parses : ∀ fieldName, parseTransactionHex parentTxHex fieldName = .ok parent
  shape : ensureCoinbaseShape parent = .ok ()
  output : ∃ output, parent.outputs[vout.val]? = some output ∧
    output.amountSats = p.covenantOutputValueSats ∧
    Hex.encode output.scriptPubkey = p.covenantScriptPubkeyHex

variable {parentTxHex : String} {vout : U32}

theorem PaysCovenant.value_le {parent : ParsedTransaction} (h : PaysCovenant p parentTxHex parent vout) :
    p.covenantOutputValueSats.val ≤ qbitMaxMoneySats := by
  obtain ⟨output, houtput, hamount, -⟩ := h.output
  have hparse := h.parses "parent_coinbase_tx_hex"
  unfold parseTransactionHex at hparse
  split at hparse
  · exact hamount ▸ parseTransaction_amounts hparse output (mem_of_getElem? houtput)
  · cases hparse

theorem fanoutTxs_read {parent : ParsedTransaction} (hp : Finalisable ctx p)
    (hparent : PaysCovenant p parentTxHex parent vout) (txid : Bytes 32) {leafScript : List UInt8} (hleaf : leafScript.length < 2 ^ 64) :
    ∃ payouts template fanoutHex fanout, List.Forall₂ PaysFanout p.outputs payouts ∧
      FanoutTx (fanoutTxIn (List.Vector.replicate 32 0) 0 p.fanoutSequence) (withAnchor payouts p.anchorVout.isSome)
        p.fanoutLockTime none p.fanoutTxTemplateHex template ∧
      witnessedFanoutTxHex (Hex.encode txid.toList) vout p.outputs p.anchorVout.isSome p.fanoutLockTime
        p.fanoutSequence leafScript = .ok fanoutHex ∧
      FanoutTx (fanoutTxIn txid vout p.fanoutSequence) (withAnchor payouts p.anchorVout.isSome) p.fanoutLockTime
        (some [[leafScript, p2mrControlBlock]]) fanoutHex fanout := by
  have hparts := verifyPrecommitment_parts hp.checked
  have hfunded := (verifyPrecommitment_eq_ok hp.checked).funded
  obtain ⟨hamounts, hlength⟩ := payouts_bounded hparts hfunded
  have hvalue := hparent.value_le
  obtain ⟨payouts, hpays, hspecs⟩ := fanoutOutputSpecs_pays p.anchorVout.isSome hparts.outputs
  have hspec : ∀ spec ∈ withAnchor payouts p.anchorVout.isSome, spec.amountSats.val ≤ qbitMaxMoneySats ∧
      spec.scriptPubkey.length < 2 ^ 64 := by
    intro spec hspec
    rcases mem_append.mp hspec with hspec | hspec
    · obtain ⟨output, houtput, hpay⟩ := exists_of_forall₂ hpays.flip hspec
      exact ⟨hpay.amount ▸ (hamounts output houtput).trans hvalue, by rw [hpay.length_script]; norm_num⟩
    · split_ifs at hspec
      · cases mem_singleton.mp hspec
        exact ⟨by decide, by decide⟩
      · exact absurd hspec not_mem_nil
  have hcount : (withAnchor payouts p.anchorVout.isSome).length < 2 ^ 64 := by
    have hanchor : (if p.anchorVout.isSome then [p2aAnchorOutputSpec] else []).length ≤ 1 := by
      split_ifs <;> simp
    rw [withAnchor, length_append, ← hpays.length_eq]
    simp only [qbitMaxMoneySats] at hvalue
    omega
  obtain ⟨templateHex, template, htemplate, htemplateTx⟩ := fanoutTxHex_reads (List.Vector.replicate 32 0) 0
    p.fanoutLockTime p.fanoutSequence [] false hspecs hspec hcount (by simp) (by simp)
  obtain ⟨fanoutHex, fanout, hfanout, hfanoutTx⟩ := fanoutTxHex_reads txid vout p.fanoutLockTime
    p.fanoutSequence [leafScript, p2mrControlBlock] true hspecs hspec hcount (by simp) (by simpa [p2mrControlBlock] using hleaf)
  obtain rfl : templateHex = p.fanoutTxTemplateHex := Except.ok.inj (htemplate.symm.trans hp.template)
  exact ⟨payouts, template, fanoutHex, fanout, hpays, htemplateTx, hfanout, hfanoutTx⟩

def finalManifest (ctx : CtvContext) (p : CtvFanoutPrecommitment) (leaf : String) (parentBytes : List UInt8)
    (parent : ParsedTransaction) (vout : U32) (fanoutTxHex : String) (fanout : ParsedTransaction) :
    CtvFanoutManifest :=
  { schema := ctvFanoutManifestSchema
    precommitment := p
    precommitmentSha256Hex := ctx.sha256Hex (ctx.precommitmentBytes p)
    commitmentWitnessLeafHex := leaf
    parentCoinbaseTxid := parent.txidHex ctx.toCrypto
    parentCoinbaseTxHex := Hex.encode parentBytes
    parentCoinbaseVout := vout
    covenantOutputValueSats := p.covenantOutputValueSats
    covenantScriptPubkeyHex := p.covenantScriptPubkeyHex
    fanoutTxHex
    fanoutTxid := fanout.txidHex ctx.toCrypto }

def ParsedTransaction.txidBytes (crypto : Crypto) (tx : ParsedTransaction) : Bytes 32 :=
  ⟨(crypto.hash256 tx.txWithoutWitness).toList.reverse, by simp⟩

theorem ParsedTransaction.txidHex_eq (crypto : Crypto) (tx : ParsedTransaction) :
    tx.txidHex crypto = Hex.encode (tx.txidBytes crypto).toList := rfl

theorem commitmentWitnessLeafHex_isOk (crypto : Crypto) (bytes : List UInt8) :
    ∃ leaf : Bytes 32, commitmentWitnessLeafHex crypto (crypto.sha256Hex bytes) =
      .ok (Hex.encode leaf.toList) := by
  rw [commitmentWitnessLeafHex, Crypto.sha256Hex, decodeHashHex_encode]
  exact ⟨_, rfl⟩

/-- The covenant of a precommitment whose template was read, with its CTV hash. -/
structure Covenant (ctx : CtvContext) (p : CtvFanoutPrecommitment) (template : ParsedTransaction)
    (ctvHash : Bytes 32) : Prop where
  hash : defaultCtvHashForParsedTx ctx.toCrypto template 0 = .ok ctvHash
  ctvHashHex : p.ctvHashHex = Hex.encode ctvHash.toList
  leafScript : p.ctvLeafScriptHex = Hex.encode (ctvLeafScript ctvHash)
  program : p.p2mrProgramHex = Hex.encode (p2mrTapleafHash ctx.toCrypto (ctvLeafScript ctvHash)).toList
  script : p.covenantScriptPubkeyHex = Hex.encode
    (p2mrScriptPubkey (p2mrTapleafHash ctx.toCrypto (ctvLeafScript ctvHash))).toList

section Finalise

variable {ctx : CtvContext} {p : CtvFanoutPrecommitment} {parentBytes : List UInt8} {vout : U32}
  {parent template fanout : ParsedTransaction} {payouts : List ParsedTxOut} {fanoutHex : String}
  {ctvHash leaf : Bytes 32}

variable (hp : Finalisable ctx p) (hparent : PaysCovenant p (Hex.encode parentBytes) parent vout)
  (hleaf : commitmentWitnessLeafHex ctx.toCrypto (ctx.sha256Hex (ctx.precommitmentBytes p)) =
    .ok (Hex.encode leaf.toList))
  (hcovenant : Covenant ctx p template ctvHash) (hpays : List.Forall₂ PaysFanout p.outputs payouts)
  (htemplate : FanoutTx (fanoutTxIn (List.Vector.replicate 32 0) 0 p.fanoutSequence)
    (withAnchor payouts p.anchorVout.isSome) p.fanoutLockTime none p.fanoutTxTemplateHex template)
  (hfanout : FanoutTx (fanoutTxIn (parent.txidBytes ctx.toCrypto) vout p.fanoutSequence)
    (withAnchor payouts p.anchorVout.isSome) p.fanoutLockTime (some [[ctvLeafScript ctvHash, p2mrControlBlock]]) fanoutHex fanout)

include hcovenant htemplate hfanout in
theorem fanout_ctvHash : defaultCtvHashForParsedTx ctx.toCrypto fanout 0 = .ok ctvHash := by
  rw [← hcovenant.hash]
  exact defaultCtvHash_congr _ (hfanout.version.trans htemplate.version.symm)
    (hfanout.lockTime.trans htemplate.lockTime.symm) (hfanout.outputs.trans htemplate.outputs.symm)
    hfanout.inputs htemplate.inputs rfl rfl 0

include htemplate in
theorem template_valid : validateFanoutTemplate template = .ok () := by
  rw [validateFanoutTemplate, htemplate.inputs, htemplate.version, htemplate.witness]
  rfl

include hp hparent hleaf hcovenant hpays htemplate hfanout in
theorem finalManifest_structure :
    verifyCtvFanoutManifestStructure ctx
      (finalManifest ctx p (Hex.encode leaf.toList) parentBytes parent vout fanoutHex fanout) = .ok () := by
  have hparts := verifyPrecommitment_parts hp.checked
  have hchecked := verifyPrecommitment_eq_ok hp.checked
  obtain ⟨rewardHash, hreward⟩ := hparts.reward
  obtain ⟨policyHash, hpolicy⟩ := hparts.policy
  obtain ⟨fanoutBytes, hfanoutBytes⟩ := hfanout.canonical
  obtain ⟨output, houtput, hvalue, hscript⟩ := hparent.output
  set manifest := finalManifest ctx p (Hex.encode leaf.toList) parentBytes parent vout fanoutHex fanout with hmanifest
  have hhex : validateManifestHex manifest = .ok () := by
    simp only [validateManifestHex, hmanifest, finalManifest, Crypto.sha256Hex, ParsedTransaction.txidHex_eq, hfanoutBytes,
      hcovenant.script, validateCanonicalSha256Hex_encode, validateCanonicalHex_encode, ok_bind]
  have hcommitment : verifyManifestCommitment ctx manifest = .ok () := by
    simp only [verifyManifestCommitment, bind_eq_ok, ctvRequire_eq_ok]
    exact ⟨(), hp.mode, (), hparts.chunk, (), rfl, _, hleaf, (), rfl, (), hp.derives.inputIndex, (), hp.height,
      (), (congrArg (validateSha256Hex · _) hreward).trans (validateSha256Hex_encode _ _),
      (), (congrArg (validateSha256Hex · _) hpolicy).trans (validateSha256Hex_encode _ _),
      hp.derives.controlBlock⟩
  have hspends : verifyManifestParent ctx manifest = .ok () := by
    simp only [verifyManifestParent, bind_eq_ok, ctvRequire_eq_ok, okOr_eq_ok]
    exact ⟨parent, hparent.parses _, (), hparent.shape, (), rfl, output, houtput, (), hvalue, (), hvalue, (),
      hscript, rfl⟩
  have hinput : verifyFanoutInput manifest fanout = .ok () := by
    simp only [verifyFanoutInput, hfanout.inputs, bind_eq_ok, ctvRequire_eq_ok]
    exact ⟨(), rfl, (), rfl, (), rfl, (), rfl, _, hp.derives.sequence, (), rfl, (), hfanout.lockTime,
      hchecked.lockTime⟩
  have hcov : verifyFanoutCovenant ctx manifest template fanout = .ok () := by
    have hwitness : verifyFanoutWitness fanout (ctvLeafScript ctvHash) = .ok () := by
      rw [verifyFanoutWitness, hfanout.witness]
      simp only [okOr_some, ok_bind, List.head?_cons, ctvRequire_of]
    have hindex : manifest.precommitment.fanoutInputIndex.val = 0 := congrArg Unsigned.val hp.derives.inputIndex
    simp only [verifyFanoutCovenant, hindex, bind_eq_ok, ctvRequire_eq_ok]
    exact ⟨ctvHash, hcovenant.hash, (), hcovenant.ctvHashHex.symm, ctvHash,
      fanout_ctvHash hcovenant htemplate hfanout, (), rfl, (), hcovenant.leafScript.symm, (),
      hcovenant.program.symm, (), hcovenant.script.symm, hwitness⟩
  have houtputs : verifyFanoutOutputs manifest fanout = .ok () :=
    verifyFanoutOutputs_isOk hparts hpays hfanout.outputs hchecked.funded
  simp only [verifyCtvFanoutManifestStructure, bind_eq_ok, ctvRequire_eq_ok]
  exact ⟨(), rfl, (), hp.checked, (), hhex, (), hcommitment, (), hspends, template, htemplate.parses _, (),
    template_valid htemplate, fanout, hfanout.parses _, (), rfl, (), hinput, (), hcov, houtputs⟩

include hp hcovenant in
theorem rebuilt_precommitment :
    ({ p with
      schema := ctvFanoutPrecommitmentSchema
      covenantScriptPubkeyHex := Hex.encode
        (p2mrScriptPubkey (p2mrTapleafHash ctx.toCrypto (ctvLeafScript ctvHash))).toList
      fanoutInputIndex := 0
      ctvHashHex := Hex.encode ctvHash.toList
      ctvLeafScriptHex := Hex.encode (ctvLeafScript ctvHash)
      p2mrProgramHex := Hex.encode (p2mrTapleafHash ctx.toCrypto (ctvLeafScript ctvHash)).toList
      p2mrControlBlockHex := Hex.encode p2mrControlBlock } : CtvFanoutPrecommitment) = p := by
  rw [← hcovenant.script, ← hcovenant.ctvHashHex, ← hcovenant.leafScript, ← hcovenant.program,
    ← hp.derives.schema, ← hp.derives.inputIndex, ← hp.derives.controlBlock]

include hp hparent hleaf hcovenant hpays htemplate hfanout in
theorem buildCtvFanoutManifest_final (hdecoded : Hex.decode parentTxHex = .ok parentBytes) :
    buildCtvFanoutManifest ctx {
      blockHeight := p.blockHeight
      chunkIndex := p.chunkIndex
      chunkCount := p.chunkCount
      coinbaseValueSats := p.coinbaseValueSats
      settlementMode := p.settlementMode
      fanoutTxTemplateHex := p.fanoutTxTemplateHex
      parentCoinbaseTxHex := parentTxHex
      parentCoinbaseVout := vout
      fanoutTxHex := fanoutHex
      rewardManifestSha256Hex := p.rewardManifestSha256Hex
      payoutPolicyManifestSha256Hex := p.payoutPolicyManifestSha256Hex
      payouts := p.outputs.map (·.payout) } =
    .ok (finalManifest ctx p (Hex.encode leaf.toList) parentBytes parent vout fanoutHex fanout) := by
  have hparts := verifyPrecommitment_parts hp.checked
  obtain ⟨rewardHash, hreward⟩ := hparts.reward
  obtain ⟨policyHash, hpolicy⟩ := hparts.policy
  obtain ⟨templateBytes, htemplateBytes⟩ := htemplate.canonical
  obtain ⟨fanoutBytes, hfanoutBytes⟩ := hfanout.canonical
  obtain ⟨output, houtput, hvalue, -⟩ := hparent.output
  have hrewardLower : p.rewardManifestSha256Hex.toLower = p.rewardManifestSha256Hex := by
    rw [hreward, toLower_encode]
  have hpolicyLower : p.payoutPolicyManifestSha256Hex.toLower = p.payoutPolicyManifestSha256Hex := by
    rw [hpolicy, toLower_encode]
  have hparse : parseTransactionHex parentTxHex "parent_coinbase_tx_hex" = .ok parent := by
    rw [parseTransactionHex, hdecoded]
    exact (parseTransactionHex_encode _ _).symm.trans (hparent.parses _)
  have hnormal : normalizeHex parentTxHex = .ok (Hex.encode parentBytes) := by
    rw [normalizeHex, hdecoded]
    rfl
  have hinput : checkFanoutInput { p with payouts := p.outputs.map (·.payout) } "manifest" = .ok () := by
    simp only [checkFanoutInput, bind_eq_ok, ctvRequire_eq_ok, hreward, hpolicy]
    exact ⟨(), hp.height, (), hp.mode, (), hparts.chunk, (), validateSha256Hex_encode _ _,
      validateSha256Hex_encode _ _⟩
  have hnormalTemplate : normalizeHex p.fanoutTxTemplateHex = .ok p.fanoutTxTemplateHex := by
    rw [htemplateBytes, normalizeHex_encode]
  have hnormalFanout : normalizeHex fanoutHex = .ok fanoutHex := by
    rw [hfanoutBytes, normalizeHex_encode]
  have hsequence : (fanoutTxIn (parent.txidBytes ctx.toCrypto) vout p.fanoutSequence).sequence =
      p.fanoutSequence := rfl
  have hstructure := finalManifest_structure hp hparent hleaf hcovenant hpays htemplate hfanout
  simp only [buildCtvFanoutManifest, hinput, hparse, hparent.shape, htemplate.parses, hfanout.parses,
    template_valid htemplate, houtput, okOr_some, hcovenant.hash, fanout_ctvHash hcovenant htemplate hfanout,
    hfanout.inputs, List.head?_cons, hp.derives.sequence, hsequence, ctvRequire_of, hp.outputs,
    hp.derives.outputSum, hp.derives.feeSum, hp.derives.anchorVout, hnormalTemplate, hvalue, hfanout.lockTime,
    hrewardLower, hpolicyLower, rebuilt_precommitment hp hcovenant, hleaf, hnormal, hnormalFanout, ok_bind]
  rw [← hcovenant.script]
  simp only [finalManifest] at hstructure ⊢
  rw [hstructure]
  rfl

end Finalise

/-- The manifest finalises the prepared fanout in the coinbase. -/
structure Finalises (ctx : CtvContext) (prepared : PreparedCtvFanout) (parent : ParsedTransaction) (vout : U32)
    (manifest : CtvFanoutManifest) : Prop where
  precommitment : manifest.precommitment = prepared.precommitment
  precommitmentHash : manifest.precommitmentSha256Hex = prepared.precommitmentSha256Hex
  leaf : manifest.commitmentWitnessLeafHex = prepared.commitmentWitnessLeafHex
  fanout : ∃ fanout input payouts,
    parseTransactionHex manifest.fanoutTxHex "fanout_tx_hex" = .ok fanout ∧
      fanout.inputs = [input] ∧
      input.prevTxidHex = parent.txidHex ctx.toCrypto ∧ input.prevVout = vout ∧
      List.Forall₂ PaysFanout prepared.precommitment.outputs payouts ∧
      fanout.outputs =
        payouts ++ if prepared.precommitment.fanoutFeeSats = 0 then [p2aAnchorOutputSpec] else []

theorem prepared_paysCovenant {program : Bytes 32} (h : prepareCtvFanoutPrecommitment ctx input = .ok prepared)
    (hparse : parseTransactionHex coinbaseHex "parent_coinbase_tx_hex" = .ok coinbase)
    (hshape : ensureCoinbaseShape coinbase = .ok ())
    (hprogram : Hex.decode prepared.covenantP2mrProgramHex = .ok program.toList)
    (houtput : coinbase.outputs[vout.val]? = some ⟨prepared.covenantOutputValueSats, (p2mrScriptPubkey program).toList⟩) :
    PaysCovenant prepared.precommitment coinbaseHex coinbase vout := by
  obtain ⟨hprepares, hderives⟩ := prepareCtvFanoutPrecommitment_eq_ok h
  obtain ⟨-, ctvHash, -, -, -, -, hprogramHex, hscript⟩ := hderives.covenant
  refine ⟨parseTransactionHex_field hparse, hshape, _, houtput, hprepares.value, ?_⟩
  rw [hprepares.program, hprogramHex, Hex.decode_encode] at hprogram
  rw [hscript, List.Vector.eq _ _ (Except.ok.inj hprogram)]

theorem finalises_of_paysCovenant (h : prepareCtvFanoutPrecommitment ctx input = .ok prepared)
    (hpays : PaysCovenant prepared.precommitment coinbaseHex coinbase vout) :
    ∃ manifest, buildCtvFanoutManifestFromPrecommitment ctx prepared.precommitment coinbaseHex vout =
        .ok manifest ∧ Finalises ctx prepared coinbase vout manifest := by
  obtain ⟨hp, hhash256⟩ := prepareCtvFanoutPrecommitment_finalisable h
  obtain ⟨bytes, hdecoded⟩ : ∃ bytes, Hex.decode coinbaseHex = .ok bytes := by
    have hparse := hpays.parses "parent_coinbase_tx_hex"
    unfold parseTransactionHex at hparse
    split at hparse
    case _ bytes hdecoded => exact ⟨bytes, hdecoded⟩
    case _ => cases hparse
  -- The manifest holds the coinbase in lower case, which reads as the same transaction.
  have hcanonical : PaysCovenant prepared.precommitment (Hex.encode bytes) coinbase vout := by
    refine ⟨fun fieldName => ?_, hpays.shape, hpays.output⟩
    have hparse := hpays.parses fieldName
    rw [parseTransactionHex, hdecoded] at hparse
    exact (parseTransactionHex_encode _ _).trans hparse
  obtain ⟨template, ctvHash, htemplate, hhash, hctv, hleafScript, hprogram, hscript⟩ := hp.derives.covenant
  have hleafLength : (ctvLeafScript ctvHash).length < 2 ^ 64 := by
    simp [ctvLeafScript]
  obtain ⟨payouts, template', fanoutHex, fanout, hpayouts, htemplateTx, hfanoutHex, hfanoutTx⟩ :=
    fanoutTxs_read hp hcanonical (coinbase.txidBytes ctx.toCrypto) hleafLength
  obtain rfl : template = template' := Except.ok.inj (htemplate.symm.trans (htemplateTx.parses _))
  obtain ⟨leaf, hleaf⟩ := commitmentWitnessLeafHex_isOk ctx.toCrypto (ctx.precommitmentBytes prepared.precommitment)
  have hbuilt := buildCtvFanoutManifest_final hp hcanonical hleaf ⟨hhash, hctv, hleafScript, hprogram, hscript⟩
    hpayouts htemplateTx hfanoutTx hdecoded
  refine ⟨finalManifest ctx prepared.precommitment (Hex.encode leaf.toList) bytes coinbase vout fanoutHex fanout,
    ?_, rfl, hhash256.symm, ?_, fanout, _, payouts, hfanoutTx.parses _,
    hfanoutTx.inputs, rfl, rfl, hpayouts, ?_⟩
  · simp only [buildCtvFanoutManifestFromPrecommitment, hp.checked, hpays.parses, hpays.shape, hleafScript,
      decodeFieldHex, Hex.decode_encode, Except.mapError, ParsedTransaction.txidHex_eq, hfanoutHex, ok_bind]
    exact hbuilt
  · have hsame := (prepareCtvFanoutPrecommitment_eq_ok h).1.leaf
    exact Except.ok.inj (hleaf.symm.trans hsame)
  · rw [hfanoutTx.outputs, withAnchor, anchorVoutForFee_isSome hp.derives.anchorVout, fanoutHasCpfpAnchor]
    simp only [decide_eq_true_eq]

/-- Every prepared fanout can be finalised, in every coinbase that pays its covenant. The coinbase
is any text that reads as one; every coinbase that is written reads so. -/
theorem prepareCtvFanoutPrecommitment_finalises {ctx : CtvContext} {input : CtvFanoutPrecommitmentInput}
    {prepared : PreparedCtvFanout} (h : prepareCtvFanoutPrecommitment ctx input = .ok prepared) :
    ∃ program : Bytes 32, Hex.decode prepared.covenantP2mrProgramHex = .ok program.toList ∧
      (∀ (coinbaseHex : String) (coinbase : ParsedTransaction) (vout : U32),
        parseTransactionHex coinbaseHex "parent_coinbase_tx_hex" = .ok coinbase →
        ensureCoinbaseShape coinbase = .ok () →
        coinbase.outputs[vout.val]? =
          some ⟨prepared.covenantOutputValueSats, (p2mrScriptPubkey program).toList⟩ →
        ∃ manifest, buildCtvFanoutManifestFromPrecommitment ctx prepared.precommitment coinbaseHex vout =
          .ok manifest ∧ Finalises ctx prepared coinbase vout manifest) ∧
      ∀ (version lockTime vout : U32) (null : TxInputSpec) (outputs : List TxOutputSpec) (withWitness : Bool),
        null.prevTxidHex = Hex.encode (List.replicate 32 0) → null.prevVout.val = 0xffffffff →
        (∀ output ∈ outputs, output.amountSats.val ≤ qbitMaxMoneySats) →
        Sized [null.wire] outputs →
        outputs[vout.val]? =
          some ⟨prepared.covenantOutputValueSats, (p2mrScriptPubkey program).toList⟩ →
        ∃ coinbaseHex coinbase manifest,
          serializeTxHex version [null] outputs lockTime withWitness = .ok coinbaseHex ∧
          parseTransactionHex coinbaseHex "parent_coinbase_tx_hex" = .ok coinbase ∧
          buildCtvFanoutManifestFromPrecommitment ctx prepared.precommitment coinbaseHex vout = .ok manifest ∧
          Finalises ctx prepared coinbase vout manifest := by
  obtain ⟨hprepares, hderives⟩ := prepareCtvFanoutPrecommitment_eq_ok h
  obtain ⟨-, ctvHash, -, -, -, -, hprogramHex, -⟩ := hderives.covenant
  have hprogram : Hex.decode prepared.covenantP2mrProgramHex =
      .ok (p2mrTapleafHash ctx.toCrypto (ctvLeafScript ctvHash)).toList := by
    rw [hprepares.program, hprogramHex, Hex.decode_encode]
  refine ⟨_, hprogram, ?_, ?_⟩
  · intro coinbaseHex coinbase vout hparse hshape houtput
    exact finalises_of_paysCovenant h (prepared_paysCovenant h hparse hshape hprogram houtput)
  · intro version lockTime vout null outputs withWitness htxid hvout hamount hsize houtput
    have hhas : ∀ input ∈ [null], input.HasTxid := by
      simp only [mem_singleton, forall_eq]
      exact ⟨List.Vector.replicate 32 0, htxid ▸ Hex.decode_encode _⟩
    have hparse := (parseTransactionHex_encode _ "parent_coinbase_tx_hex").trans
      (parseTransaction_unmarked "parent_coinbase_tx_hex" version lockTime withWitness
        (cons_ne_nil null.wire []) hamount hsize)
    have hshape : ensureCoinbaseShape {
        version
        inputs := [null.wire.parsed]
        outputs
        lockTime
        witnessStacks := if withWitness then some [null.wire.witnessStack] else none
        txWithoutWitness := leBytes 4 version.val ++ unmarked [null.wire] outputs lockTime false } = .ok () := by
      refine ctvRequire_of ⟨?_, hvout⟩
      rw [← (hhas null (mem_singleton_self _)).parsed_eq, TxInputSpec.parsed, htxid]
      exact toLower_encode _
    obtain ⟨manifest, hbuilt, hfinal⟩ := finalises_of_paysCovenant h
      (prepared_paysCovenant h hparse hshape hprogram houtput)
    refine ⟨_, _, manifest, ?_, hparse, hbuilt, hfinal⟩
    rw [serializeTxHex, serializeTx_eq hhas]
    rfl

def sampleFanoutContext : CtvContext where
  sha256 _ := List.Vector.replicate 32 0
  ed25519ValidKey _ := true
  ed25519Verifies _ _ _ := true
  precommitmentBytes _ := []

def samplePayout : CtvFanoutPayout where
  recipientId := "miner"
  orderKey := "miner"
  p2mrProgramHex := Hex.encode (List.replicate 32 1)
  grossAmountSats := 5
  feeSats := 0
  amountSats := 5

/-- A block whose one payout of five satoshis is fanned out without a fee. -/
def sampleFanoutInput : CtvFanoutPrecommitmentInput where
  blockHeight := 7
  chunkIndex := 0
  chunkCount := 1
  coinbaseValueSats := 9
  settlementMode := .ctvFanout
  rewardManifestSha256Hex := Hex.encode (List.replicate 32 0)
  payoutPolicyManifestSha256Hex := Hex.encode (List.replicate 32 0)
  payouts := [samplePayout]

def nullInput : TxInputSpec where
  prevTxidHex := Hex.encode (List.replicate 32 0)
  prevVout := 0xffffffff
  scriptSig := [7]
  sequence := 0
  witnessStack := []

theorem prepareCtvFanoutPrecommitment_finalises_one :
    ∃ prepared manifest program coinbaseHex coinbase,
      prepareCtvFanoutPrecommitment sampleFanoutContext sampleFanoutInput = .ok prepared ∧
      serializeTxHex 2 [nullInput] [⟨5, (p2mrScriptPubkey program).toList⟩] 0 false = .ok coinbaseHex ∧
      buildCtvFanoutManifestFromPrecommitment sampleFanoutContext prepared.precommitment coinbaseHex 0 =
        .ok manifest ∧
      Finalises sampleFanoutContext prepared coinbase 0 manifest := by
  have hvalue : (prepareCtvFanoutPrecommitment sampleFanoutContext sampleFanoutInput).map
      (·.covenantOutputValueSats) = .ok 5 := by decide +kernel
  obtain ⟨prepared, hprepared⟩ :
      ∃ prepared, prepareCtvFanoutPrecommitment sampleFanoutContext sampleFanoutInput = .ok prepared :=
    exists_of_isOk (by decide +kernel)
  rw [hprepared] at hvalue
  replace hvalue : prepared.covenantOutputValueSats = 5 := Except.ok.inj hvalue
  obtain ⟨program, -, -, hwritten⟩ := prepareCtvFanoutPrecommitment_finalises hprepared
  rw [hvalue] at hwritten
  obtain ⟨coinbaseHex, coinbase, manifest, hserialized, -, hbuilt, hfinal⟩ :=
    hwritten 2 0 0 nullInput [⟨5, (p2mrScriptPubkey program).toList⟩] false rfl rfl
      (by simpa using (by decide : (5 : U64).val ≤ qbitMaxMoneySats))
      ⟨by simp, by simp, by simp [TxInputSpec.wire, nullInput], by simp [TxInputSpec.wire, nullInput],
        by simp [TxInputSpec.wire, nullInput], by simp⟩ rfl
  exact ⟨prepared, manifest, program, coinbaseHex, coinbase, hprepared, hserialized, hbuilt, hfinal⟩

end QbitPrism
