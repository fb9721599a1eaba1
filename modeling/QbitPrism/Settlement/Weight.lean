import Mathlib
import QbitPrism.Ctv.Finalised
import QbitPrism.Settlement.Partition

/-!
# The weight of a fanout

`estimated_ctv_fanout_weight_bytes` is a constant, the length of the output count and forty-three
bytes a payout. The serializer writes exactly that for a fanout that pays its fee from its payouts;
a fanout without a fee has an anchor of thirteen bytes more, which may also lengthen the count.
-/
namespace QbitPrism
open MachineInt Checked ByteReader List

theorem length_compactSize (size : ℕ) : (compactSize size).length = compactSizeLen size := by
  unfold compactSize compactSizeLen
  split_ifs <;> simp

theorem length_txOut (output : ParsedTxOut) :
    output.serialize.length = 8 + compactSizeLen output.scriptPubkey.length + output.scriptPubkey.length := by
  simp only [ParsedTxOut.serialize, length_append, length_leBytes, length_compactSize]
  omega

variable {bytes : List UInt8}

theorem TxInputSpec.length_serialize {input : TxInputSpec} (h : input.serialize = .ok bytes) :
    bytes.length = 40 + compactSizeLen input.scriptSig.length + input.scriptSig.length := by
  simp only [serialize, bind_eq_ok, pure_eq_ok, require_eq_ok] at h
  obtain ⟨prevTxid, -, -, hlength, rfl⟩ := h
  simp only [length_append, length_reverse, hlength, length_leBytes, length_compactSize]
  omega

theorem length_serializeTx {version lockTime : U32} {input : TxInputSpec} {outputs : List TxOutputSpec}
    (h : serializeTx version [input] outputs lockTime true = .ok bytes) :
    bytes.length = 51 + compactSizeLen input.scriptSig.length + input.scriptSig.length +
      compactSizeLen outputs.length + (outputs.map fun output => output.serialize.length).sum +
      input.serializeWitness.length := by
  simp only [serializeTx, mapM_cons, mapM_nil, bind_eq_ok, pure_eq_ok] at h
  obtain ⟨inputBytes, ⟨one, hone, -, rfl, rfl⟩, rfl⟩ := h
  have hinput := TxInputSpec.length_serialize hone
  have houtputs : (outputs.map ParsedTxOut.serialize).flatten.length =
      (outputs.map fun output => output.serialize.length).sum := by
    rw [length_flatten, map_map]
    rfl
  have hcount : compactSizeLen 1 = 1 := rfl
  simp only [if_true, length_append, length_leBytes, length_compactSize, houtputs, flatten_cons, flatten_nil,
    append_nil, map_cons, map_nil, length_cons, length_nil, hinput, Nat.zero_add, hcount]
  omega

def CtvFanoutPrecommitment.anchorCount (p : CtvFanoutPrecommitment) : ℕ := if p.anchorVout.isSome then 1 else 0

/-- What the checks of a manifest fix of its fanout transaction's size. -/
structure FanoutShape (p : CtvFanoutPrecommitment) (fanout : ParsedTransaction) : Prop where
  input : ∃ input, fanout.inputs = [input] ∧ input.scriptSig = []
  witness : ∃ leafScript rest, leafScript.length = 34 ∧
    fanout.witnessStacks = some ([leafScript, p2mrControlBlock] :: rest)
  count : fanout.outputs.length = p.outputs.length + p.anchorCount
  outputs : (fanout.outputs.map fun output => output.serialize.length).sum =
    43 * p.outputs.length + 13 * p.anchorCount

theorem PaysFanout.length_serialize {payout : CtvFanoutOutput} {output : ParsedTxOut}
    (h : PaysFanout payout output) : output.serialize.length = 43 := by
  rw [length_txOut, h.length_script]
  rfl

variable {manifest : CtvFanoutManifest} {fanout : ParsedTransaction}

theorem verifyFanoutOutputs_shape (h : verifyFanoutOutputs manifest fanout = .ok ()) :
    fanout.outputs.length = manifest.precommitment.outputs.length + manifest.precommitment.anchorCount ∧
      (fanout.outputs.map fun output => output.serialize.length).sum =
        43 * manifest.precommitment.outputs.length + 13 * manifest.precommitment.anchorCount := by
  obtain ⟨⟨payouts, anchors, hsplit, hpays, hanchors⟩, -, -⟩ := verifyFanoutOutputs_eq_ok h
  simp only [verifyFanoutOutputs, bind_eq_ok, ctvRequire_eq_ok] at h
  obtain ⟨-, hcount, -⟩ := h
  have hanchorCount : anchors.length = manifest.precommitment.anchorCount := by
    rw [hsplit, length_append, ← hpays.length_eq] at hcount
    exact Nat.add_left_cancel hcount
  have hpayoutSum : (payouts.map fun output => output.serialize.length).sum = payouts.length * 43 := by
    rw [← smul_eq_mul]
    refine sum_eq_card_nsmul _ _ ?_ |>.trans (by rw [length_map])
    intro length hlength
    obtain ⟨output, houtput, rfl⟩ := mem_map.mp hlength
    obtain ⟨payout, -, hpay⟩ := exists_of_forall₂ hpays.flip houtput
    exact hpay.length_serialize
  have hanchorSum : (anchors.map fun output => output.serialize.length).sum = anchors.length * 13 := by
    rw [← smul_eq_mul]
    refine sum_eq_card_nsmul _ _ ?_ |>.trans (by rw [length_map])
    intro length hlength
    obtain ⟨output, houtput, rfl⟩ := mem_map.mp hlength
    rw [length_txOut, hanchors output houtput]
    rfl
  refine ⟨hcount, ?_⟩
  rw [hsplit, map_append, sum_append, hpayoutSum, hanchorSum, hanchorCount, ← hpays.length_eq]
  omega

variable {ctx : CtvContext}

theorem verifyFanoutCovenant_shape {template : ParsedTransaction}
    (h : verifyFanoutCovenant ctx manifest template fanout = .ok ()) :
    ∃ leafScript rest, leafScript.length = 34 ∧
      fanout.witnessStacks = some ([leafScript, p2mrControlBlock] :: rest) := by
  simp only [verifyFanoutCovenant, verifyFanoutWitness, bind_eq_ok, okOr_eq_ok] at h
  obtain ⟨_, -, -, -, ctvHash, -, -, -, -, -, -, -, -, -, witness, hwitness, stack, hstack, h⟩ := h
  split at h
  case _ script control =>
      simp only [bind_eq_ok, ctvRequire_eq_ok] at h
      obtain ⟨-, rfl, rfl⟩ := h
      obtain ⟨rest, rfl⟩ : ∃ rest, witness = [ctvLeafScript ctvHash, p2mrControlBlock] :: rest :=
        List.head?_eq_some_iff.mp hstack
      exact ⟨_, rest, by simp [ctvLeafScript], hwitness⟩
  case _ => cases h

theorem verifyFanoutInput_shape (h : verifyFanoutInput manifest fanout = .ok ()) :
    ∃ input, fanout.inputs = [input] ∧ input.scriptSig = [] := by
  unfold verifyFanoutInput at h
  dsimp only at h
  split at h
  case _ input hinputs =>
      simp only [bind_eq_ok, ctvRequire_eq_ok] at h
      exact ⟨input, hinputs, h.choose_spec.1⟩
  case _ => cases h

theorem verifyCtvFanoutManifestStructure_shape (h : verifyCtvFanoutManifestStructure ctx manifest = .ok ()) :
    ∃ fanout, parseTransactionHex manifest.fanoutTxHex "manifest fanout_tx_hex" = .ok fanout ∧
      FanoutShape manifest.precommitment fanout := by
  simp only [verifyCtvFanoutManifestStructure, bind_eq_ok] at h
  obtain ⟨-, -, -, -, -, -, -, -, -, -, template, -, -, -, fanout, hfanout, -, -, ⟨⟩, hinput, ⟨⟩, hcovenant,
    houtputs⟩ := h
  obtain ⟨hcount, hsum⟩ := verifyFanoutOutputs_shape houtputs
  exact ⟨fanout, hfanout, verifyFanoutInput_shape hinput, verifyFanoutCovenant_shape hcovenant, hcount, hsum⟩

variable {p : CtvFanoutPrecommitment}

theorem FanoutShape.length {fieldName : String} (hshape : FanoutShape p fanout)
    (hparse : parseTransaction bytes fieldName = .ok fanout) (hflag : FlagIsOne bytes) :
    bytes.length = ctvFanoutFixedWeightBytes + compactSizeLen (p.outputs.length + p.anchorCount) +
      p.outputs.length * ctvFanoutP2mrOutputBytes + 13 * p.anchorCount := by
  obtain ⟨input, hinputs, hscript⟩ := hshape.input
  obtain ⟨leafScript, rest, hleaf, hwitness⟩ := hshape.witness
  have hwritten := (reserialize_iff hparse).mpr hflag
  simp only [ParsedTransaction.reserialize, serializeTxHex, bind_eq_ok, pure_eq_ok] at hwritten
  obtain ⟨written, hwritten, hsame⟩ := hwritten
  obtain rfl : written = bytes := Hex.encode_injective hsame
  have hspecs : fanout.inputSpecs = [input.withStack [leafScript, p2mrControlBlock]] := by
    rw [ParsedTransaction.inputSpecs, hinputs, hwitness]
    rfl
  rw [hspecs, hwitness] at hwritten
  have hlength := length_serializeTx hwritten
  have hstack : (input.withStack [leafScript, p2mrControlBlock]).serializeWitness.length = 38 := by
    simp only [TxInputSpec.serializeWitness, ParsedTxIn.withStack, length_append, length_compactSize, map_cons,
      map_nil, flatten_cons, flatten_nil, length_cons, length_nil, hleaf, p2mrControlBlock]
    rfl
  have hempty : (input.withStack [leafScript, p2mrControlBlock]).scriptSig = [] := hscript
  have hzero : compactSizeLen 0 = 1 := rfl
  rw [hstack, hempty, hshape.count, hshape.outputs, length_nil, hzero] at hlength
  rw [hlength, ctvFanoutFixedWeightBytes, ctvFanoutP2mrOutputBytes]
  omega

theorem serializeTxHex_flag {version lockTime : U32} {inputs : List TxInputSpec} {outputs : List TxOutputSpec}
    {txHex : String} (h : serializeTxHex version inputs outputs lockTime true = .ok txHex) :
    ∃ bytes, txHex = Hex.encode bytes ∧ FlagIsOne bytes := by
  simp only [serializeTxHex, serializeTx, bind_eq_ok, pure_eq_ok, if_true] at h
  obtain ⟨bytes, ⟨inputBytes, -, rfl⟩, rfl⟩ := h
  refine ⟨_, rfl, ?_⟩
  intro _
  rw [List.getElem?_append_right (by simp), length_leBytes]
  rfl

theorem buildFromPrecommitment_written {parentTxHex : String} {vout : U32}
    (h : buildCtvFanoutManifestFromPrecommitment ctx p parentTxHex vout = .ok manifest) :
    verifyCtvFanoutManifestStructure ctx manifest = .ok () ∧
      ∃ bytes, manifest.fanoutTxHex = Hex.encode bytes ∧ FlagIsOne bytes := by
  simp only [buildCtvFanoutManifestFromPrecommitment, bind_eq_ok] at h
  obtain ⟨-, -, parent, -, -, -, leafScript, -, fanoutHex, hfanout, hbuild⟩ := h
  simp only [witnessedFanoutTxHex, fanoutTxHex, bind_eq_ok] at hfanout
  obtain ⟨txid, -, specs, -, hwritten⟩ := hfanout
  obtain ⟨bytes, rfl, hflag⟩ := serializeTxHex_flag hwritten
  simp only [buildCtvFanoutManifest, bind_eq_ok, pure_eq_ok] at hbuild
  obtain ⟨-, -, _, -, -, -, _, -, _, -, -, -, _, -, _, -, _, -, -, -, _, -, _, -, -, -, _, -, _, -, _, -, _, -, _,
    -, _, -, _, -, normal, hnormal, ⟨⟩, hstructure, rfl⟩ := hbuild
  refine ⟨hstructure, bytes, ?_, hflag⟩
  exact (Except.ok.inj ((normalizeHex_encode bytes).symm.trans hnormal)).symm

theorem verifyCtvFanoutManifestStructure_count (h : verifyCtvFanoutManifestStructure ctx manifest = .ok ()) :
    manifest.precommitment.outputs.length ≤ qbitMaxMoneySats ∧ checkAnchorVout manifest.precommitment = .ok () := by
  simp only [verifyCtvFanoutManifestStructure, bind_eq_ok] at h
  obtain ⟨-, -, ⟨⟩, hchecked, -, -, -, -, ⟨⟩, hparent, -⟩ := h
  have hparts := verifyPrecommitment_parts hchecked
  obtain ⟨-, hcount⟩ := payouts_bounded hparts (verifyPrecommitment_eq_ok hchecked).funded
  simp only [verifyManifestParent, bind_eq_ok, okOr_eq_ok, ctvRequire_eq_ok] at hparent
  obtain ⟨parent, hparse, -, -, -, -, output, houtput, -, -, -, hvalue, -⟩ := hparent
  refine ⟨hcount.trans ?_, hparts.anchor⟩
  rw [← hvalue]
  unfold parseTransactionHex at hparse
  split at hparse
  · exact parseTransaction_amounts hparse output (mem_of_getElem? houtput)
  · cases hparse

theorem checkAnchorVout_count (h : checkAnchorVout p = .ok ()) :
    p.anchorCount = if p.fanoutFeeSats = 0 then 1 else 0 := by
  unfold checkAnchorVout at h
  unfold CtvFanoutPrecommitment.anchorCount
  cases hvout : p.anchorVout with
  | none =>
    rw [hvout, ctvRequire_eq_ok] at h
    rw [if_neg h]
    rfl
  | some vout =>
    simp only [hvout, bind_eq_ok, ctvRequire_eq_ok] at h
    obtain ⟨-, hfee, -⟩ := h
    rw [if_pos hfee]
    rfl

theorem compactSizeLen_le (value : ℕ) : compactSizeLen value ≤ 9 := by
  unfold compactSizeLen
  split_ifs <;> omega

/-- The estimate is the real size of a fanout with a fee, and a fanout without one that a checked
configuration allows stays under the limit. -/
theorem fanoutWeight_exact {ctx : CtvContext} {p : CtvFanoutPrecommitment} {parentTxHex : String} {vout : U32}
    {manifest : CtvFanoutManifest}
    (h : buildCtvFanoutManifestFromPrecommitment ctx p parentTxHex vout = .ok manifest) :
    ∃ bytes, Hex.decode manifest.fanoutTxHex = .ok bytes ∧
      (manifest.precommitment.fanoutFeeSats ≠ 0 →
        ∃ weight, estimatedCtvFanoutWeightBytes manifest.precommitment.outputs.length = .ok weight ∧
          bytes.length = weight.val) ∧
      (manifest.precommitment.fanoutFeeSats = 0 →
        ∀ config, validateConfig config = .ok () →
          manifest.precommitment.outputs.length ≤ config.maxFanoutRecipientsPerTransaction →
          bytes.length ≤ qbitTrucMaxTxWeightBytes) := by
  obtain ⟨hstructure, bytes, hbytes, hflag⟩ := buildFromPrecommitment_written h
  obtain ⟨fanout, hparse, hshape⟩ := verifyCtvFanoutManifestStructure_shape hstructure
  obtain ⟨hcount, hanchor⟩ := verifyCtvFanoutManifestStructure_count hstructure
  rw [hbytes, parseTransactionHex_encode] at hparse
  have hlength := hshape.length hparse hflag
  rw [checkAnchorVout_count hanchor] at hlength
  refine ⟨bytes, hbytes ▸ Hex.decode_encode bytes, ?_, ?_⟩
  · intro hfee
    rw [if_neg hfee, Nat.mul_zero, Nat.add_zero, Nat.add_zero] at hlength
    have hsmall := compactSizeLen_le manifest.precommitment.outputs.length
    have hfit : bytes.length < 2 ^ 64 := by
      simp only [hlength, ctvFanoutFixedWeightBytes, ctvFanoutP2mrOutputBytes]
      simp only [qbitMaxMoneySats] at hcount
      omega
    refine ⟨⟨bytes.length, hfit⟩, ?_, rfl⟩
    rw [estimatedCtvFanoutWeightBytes, ← hlength, okOr_eq_ok, Unsigned.ofNat?_eq_some]
  · intro hfee config hconfig hallowed
    have hlimit := (validateConfig_eq_ok hconfig).chunk
    rw [if_pos hfee] at hlength
    have hthree : compactSizeLen (manifest.precommitment.outputs.length + 1) ≤ 3 := by
      unfold compactSizeLen
      simp only [maxCtvFanoutRecipientsPerTransaction] at hlimit
      split_ifs <;> omega
    simp only [hlength, ctvFanoutFixedWeightBytes, ctvFanoutP2mrOutputBytes, qbitTrucMaxTxWeightBytes]
    simp only [maxCtvFanoutRecipientsPerTransaction] at hlimit
    omega

def feeFanoutInput : CtvFanoutPrecommitmentInput :=
  { sampleFanoutInput with payouts := [{ samplePayout with grossAmountSats := 6, feeSats := 1 }] }

/-- A coinbase that pays six satoshis to the covenant program of a prepared fanout. -/
def feeFanoutCoinbaseHex (prepared : PreparedCtvFanout) : Except PrismError String := do
  let program ← decodeProgramHex prepared.covenantP2mrProgramHex "covenant_p2mr_program_hex"
  serializeTxHex 2 [nullInput] [⟨6, (p2mrScriptPubkey program).toList⟩] 0 false

theorem fanoutWeight_exact_one_payout :
    ∃ prepared coinbaseHex manifest bytes,
      prepareCtvFanoutPrecommitment sampleFanoutContext feeFanoutInput = .ok prepared ∧
      feeFanoutCoinbaseHex prepared = .ok coinbaseHex ∧
      buildCtvFanoutManifestFromPrecommitment sampleFanoutContext prepared.precommitment coinbaseHex 0 =
        .ok manifest ∧
      Hex.decode manifest.fanoutTxHex = .ok bytes ∧ bytes.length = 134 := by
  have hok : ((prepareCtvFanoutPrecommitment sampleFanoutContext feeFanoutInput).toOption.any fun prepared =>
      (feeFanoutCoinbaseHex prepared).toOption.any fun coinbaseHex =>
        (buildCtvFanoutManifestFromPrecommitment sampleFanoutContext prepared.precommitment coinbaseHex
          0).toOption.any fun manifest =>
            manifest.precommitment.fanoutFeeSats ≠ 0 ∧ manifest.precommitment.outputs.length = 1) = true := by
    decide +kernel
  obtain ⟨prepared, hprepared, hok⟩ := exists_of_any hok
  obtain ⟨coinbaseHex, hcoinbase, hok⟩ := exists_of_any hok
  obtain ⟨manifest, hmanifest, hfacts⟩ := exists_of_any hok
  obtain ⟨hfee, hcount⟩ := of_decide_eq_true hfacts
  obtain ⟨bytes, hdecode, hexact, -⟩ := fanoutWeight_exact hmanifest
  obtain ⟨weight, hweight, hlength⟩ := hexact hfee
  rw [hcount] at hweight
  have hestimate : (estimatedCtvFanoutWeightBytes 1) = .ok 134 := by decide
  cases hestimate.symm.trans hweight
  exact ⟨prepared, coinbaseHex, manifest, bytes, hprepared, hcoinbase, hmanifest, hdecode, hlength⟩

end QbitPrism
