import Mathlib
import QbitPrism.Ctv.Manifest

/-!
# What an accepted fanout manifest establishes

The fanout transaction pays exactly the precommitment's outputs and perhaps an anchor, its
covenant output is in the parent coinbase with the value the payouts and fees add up to,
and the manifests of a set spend different outputs.
-/
namespace QbitPrism
open MachineInt Checked ByteReader List

/-- A transaction output that pays a precommitment output. -/
structure PaysFanout (payout : CtvFanoutOutput) (output : ParsedTxOut) : Prop where
  amount : output.amountSats = payout.amountSats
  script : ∃ program : Bytes 32, Hex.decode payout.p2mrProgramHex = .ok program.toList ∧
    output.scriptPubkey = (p2mrScriptPubkey program).toList

namespace CtvFanoutPrecommitment

def paidSats (precommitment : CtvFanoutPrecommitment) : ℕ :=
  (precommitment.outputs.map fun o => o.amountSats.val).sum

def feeTotal (precommitment : CtvFanoutPrecommitment) : ℕ :=
  (precommitment.outputs.map fun o => o.feeSats.val).sum

end CtvFanoutPrecommitment

structure FanoutOutputs (manifest : CtvFanoutManifest) (fanout : ParsedTransaction) : Prop where
  outputs : ∃ payouts anchors, fanout.outputs = payouts ++ anchors ∧
    List.Forall₂ PaysFanout manifest.precommitment.outputs payouts ∧
    ∀ anchor ∈ anchors, anchor.scriptPubkey = p2aAnchorScriptPubkey
  fee : manifest.precommitment.fanoutFeeSats.val = manifest.precommitment.feeTotal
  funded : manifest.covenantOutputValueSats.val =
    manifest.precommitment.paidSats + manifest.precommitment.feeTotal

/-- The pass over the outputs: what it has added up and what it has checked. -/
structure FanoutSums.Covers (sums : FanoutSums) (done : List ((ParsedTxOut × CtvFanoutOutput) × ℕ)) :
    Prop where
  outputSum : sums.outputSum.val = (done.map fun x => x.1.2.amountSats.val).sum
  feeSum : sums.feeSum.val = (done.map fun x => x.1.2.feeSats.val).sum
  pays : ∀ x ∈ done, PaysFanout x.1.2 x.1.1

theorem checkFanoutOutput_covers {done : List ((ParsedTxOut × CtvFanoutOutput) × ℕ)}
    {x : (ParsedTxOut × CtvFanoutOutput) × ℕ} {sums sums' : FanoutSums} (hdone : sums.Covers done)
    (h : checkFanoutOutput sums x = .ok sums') : sums'.Covers (done ++ [x]) := by
  obtain ⟨⟨output, payout⟩, index⟩ := x
  simp only [checkFanoutOutput, bind_eq_ok, pure_eq_ok, ctvRequire_eq_ok, addSats_eq_ok,
    decodeProgramHex, decodeHashHex_eq_ok] at h
  obtain ⟨outputSum, houtput, feeSum, hfee, -, -, -, hamount, program, hprogram, -, hscript, -, -, rfl⟩ := h
  refine ⟨?_, ?_, ?_⟩
  · simp [houtput, hdone.outputSum, hamount]
  · simp [hfee, hdone.feeSum]
  · intro y hy
    rcases mem_append.mp hy with hy | hy
    · exact hdone.pays y hy
    · rw [mem_singleton.mp hy]
      exact ⟨hamount, program, hprogram, hscript⟩

variable {fanout : ParsedTransaction} {manifest : CtvFanoutManifest} {set : CtvFanoutManifestSet}

theorem verifyFanoutAnchor_eq_ok {precommitment : CtvFanoutPrecommitment}
    (hlen : fanout.outputs.length = precommitment.outputs.length + if precommitment.anchorVout.isSome then 1 else 0)
    (h : verifyFanoutAnchor precommitment fanout = .ok ()) :
    ∀ anchor ∈ fanout.outputs.drop precommitment.outputs.length,
      anchor.scriptPubkey = p2aAnchorScriptPubkey := by
  intro anchor hmem
  cases hanchor : precommitment.anchorVout with
  | none =>
    rw [hanchor] at hlen
    rw [drop_eq_nil_of_le (by simp [hlen])] at hmem
    exact absurd hmem not_mem_nil
  | some vout =>
    simp only [verifyFanoutAnchor, hanchor, ensureFeeAnchorOutput, bind_eq_ok, okOr_eq_ok, ctvRequire_eq_ok] at h
    obtain ⟨last, hlast, -, -, -, -, hscript⟩ := h
    rw [hanchor] at hlen
    obtain ⟨hlt, hget⟩ := List.getElem?_eq_some_iff.mp hlast
    -- The anchor is the only output after the payouts.
    rw [drop_eq_getElem_cons hlt, drop_eq_nil_of_le (by simp [hlen]), mem_singleton, hget] at hmem
    rwa [hmem]

theorem verifyFanoutOutputs_eq_ok (h : verifyFanoutOutputs manifest fanout = .ok ()) :
    FanoutOutputs manifest fanout := by
  simp only [verifyFanoutOutputs, bind_eq_ok, ctvRequire_eq_ok, addSats_eq_ok] at h
  obtain ⟨-, hlen, sums, hsums, -, -, -, hfee, ⟨⟩, hanchor, funded, hfunded, hvalue⟩ := h
  have hcovers : sums.Covers (fanout.outputs.zip manifest.precommitment.outputs).zipIdx := by
    refine foldlM_ok_induction (fun done acc => FanoutSums.Covers acc done) ⟨?_, ?_, ?_⟩ ?_ hsums
    · simp
    · simp
    · exact fun x hx => absurd hx not_mem_nil
    · exact fun done x acc acc' => checkFanoutOutput_covers
  have hle : manifest.precommitment.outputs.length ≤ fanout.outputs.length := by omega
  have hsnd : ((fanout.outputs.zip manifest.precommitment.outputs).zipIdx.map fun x => x.1.2) =
      manifest.precommitment.outputs := by
    rw [show (fun x : (ParsedTxOut × CtvFanoutOutput) × ℕ => x.1.2) = Prod.snd ∘ Prod.fst from rfl,
      ← map_map, zipIdx_map_fst, map_snd_zip hle]
  have hsum : ∀ f : CtvFanoutOutput → ℕ,
      ((fanout.outputs.zip manifest.precommitment.outputs).zipIdx.map fun x => f x.1.2).sum =
        (manifest.precommitment.outputs.map f).sum := by
    intro f
    conv_rhs => rw [← hsnd, map_map]
    rfl
  refine ⟨⟨fanout.outputs.take manifest.precommitment.outputs.length,
    fanout.outputs.drop manifest.precommitment.outputs.length, (take_append_drop _ _).symm, ?_,
    verifyFanoutAnchor_eq_ok hlen hanchor⟩, ?_, ?_⟩
  · rw [List.forall₂_iff_zip]
    refine ⟨by simp [hle], ?_⟩
    intro payout output hmem
    have hzip : (output, payout) ∈ fanout.outputs.zip manifest.precommitment.outputs := by
      rw [zip_eq_zip_take_min, Nat.min_eq_right hle, take_length, ← zip_swap]
      exact mem_map.mpr ⟨_, hmem, rfl⟩
    obtain ⟨i, hi⟩ := mem_iff_getElem?.mp hzip
    exact hcovers.pays ((output, payout), i) (mem_zipIdx_iff_getElem?.mpr hi)
  · rw [← hfee, hcovers.feeSum, hsum fun o => o.feeSats.val]
    rfl
  · rw [← hvalue, hfunded, hcovers.outputSum, hcovers.feeSum, hsum fun o => o.amountSats.val,
      hsum fun o => o.feeSats.val]
    rfl

def covenantTxOut (manifest : CtvFanoutManifest) (program : Bytes 32) : ParsedTxOut :=
  { amountSats := manifest.covenantOutputValueSats
    scriptPubkey := (p2mrScriptPubkey program).toList }

structure AcceptedManifest (manifest : CtvFanoutManifest) : Prop where
  covenant : ∃ (parent : ParsedTransaction) (program : Bytes 32),
    parseTransactionHex manifest.parentCoinbaseTxHex "manifest parent_coinbase_tx_hex" = .ok parent ∧
      manifest.precommitment.p2mrProgramHex = Hex.encode program.toList ∧
      parent.outputs[manifest.parentCoinbaseVout.val]? = some (covenantTxOut manifest program)
  fanout : ∃ fanout, parseTransactionHex manifest.fanoutTxHex "manifest fanout_tx_hex" = .ok fanout ∧
    FanoutOutputs manifest fanout

variable {ctx : CtvContext}

theorem verifyManifestParent_eq_ok (h : verifyManifestParent ctx manifest = .ok ()) :
    ∃ parent output,
      parseTransactionHex manifest.parentCoinbaseTxHex "manifest parent_coinbase_tx_hex" = .ok parent ∧
        parent.outputs[manifest.parentCoinbaseVout.val]? = some output ∧
        output.amountSats = manifest.covenantOutputValueSats ∧
        Hex.encode output.scriptPubkey = manifest.covenantScriptPubkeyHex := by
  simp only [verifyManifestParent, bind_eq_ok, ctvRequire_eq_ok, okOr_eq_ok] at h
  obtain ⟨parent, hparent, -, -, -, -, output, houtput, -, hamount, -, -, -, hscript, -⟩ := h
  exact ⟨parent, output, hparent, houtput, hamount, hscript⟩

theorem verifyFanoutCovenant_eq_ok {template : ParsedTransaction}
    (h : verifyFanoutCovenant ctx manifest template fanout = .ok ()) :
    ∃ program : Bytes 32, manifest.precommitment.p2mrProgramHex = Hex.encode program.toList ∧
      manifest.covenantScriptPubkeyHex = Hex.encode (p2mrScriptPubkey program).toList := by
  simp only [verifyFanoutCovenant, bind_eq_ok, ctvRequire_eq_ok] at h
  obtain ⟨templateHash, -, -, -, ctvHash, -, -, -, -, -, -, hprogram, -, hscript, -⟩ := h
  exact ⟨_, hprogram.symm, hscript.symm⟩

theorem verifyCtvFanoutManifestStructure_eq_ok (h : verifyCtvFanoutManifestStructure ctx manifest = .ok ()) :
    AcceptedManifest manifest := by
  simp only [verifyCtvFanoutManifestStructure, bind_eq_ok, ctvRequire_eq_ok] at h
  obtain ⟨-, -, -, -, -, -, -, -, ⟨⟩, hparent, template, -, -, -, fanout, hfanout, -, -, -, -, ⟨⟩,
    hcovenant, houtputs⟩ := h
  obtain ⟨parent, output, hparse, houtput, hamount, hscript⟩ := verifyManifestParent_eq_ok hparent
  obtain ⟨program, hprogram, hcovenantScript⟩ := verifyFanoutCovenant_eq_ok hcovenant
  refine ⟨⟨parent, program, hparse, hprogram, ?_⟩, fanout, hfanout, verifyFanoutOutputs_eq_ok houtputs⟩
  have hbytes := Hex.encode_injective (hscript.trans hcovenantScript)
  rw [houtput, covenantTxOut, ← hamount, ← hbytes]

/-- The pass over a set: the outputs it has seen spent, all of them different. -/
structure SetScan.Covers (scan : SetScan) (done : List (CtvFanoutManifest × ℕ)) : Prop where
  parentVouts : scan.parentVouts = (done.map fun x => x.1.parentCoinbaseVout).reverse
  distinct : scan.parentVouts.Nodup
  accepted : ∀ x ∈ done, AcceptedManifest x.1

theorem checkSetManifest_covers {done : List (CtvFanoutManifest × ℕ)} {x : CtvFanoutManifest × ℕ}
    {scan scan' : SetScan} (hdone : scan.Covers done) (h : checkSetManifest ctx set scan x = .ok scan') :
    scan'.Covers (done ++ [x]) := by
  simp only [checkSetManifest, insertNew, bind_eq_ok, pure_eq_ok, ctvRequire_eq_ok] at h
  obtain ⟨⟨⟩, hstructure, -, -, vouts, ⟨-, hfresh, rfl⟩, -, -, -, -, -, -, -, -, -, -, -, -, rfl⟩ := h
  refine ⟨?_, ?_, ?_⟩
  · simp [hdone.parentVouts]
  · exact nodup_cons.mpr ⟨hfresh, hdone.distinct⟩
  · intro y hy
    rcases mem_append.mp hy with hy | hy
    · exact hdone.accepted y hy
    · rw [mem_singleton.mp hy]
      exact verifyCtvFanoutManifestStructure_eq_ok hstructure

structure AcceptedSet (set : CtvFanoutManifestSet) : Prop where
  accepted : ∀ manifest ∈ set.manifests, AcceptedManifest manifest
  distinct : (set.manifests.map (·.parentCoinbaseVout)).Nodup

theorem verifyCtvFanoutManifestSet_eq_ok (h : verifyCtvFanoutManifestSet ctx set = .ok ()) : AcceptedSet set := by
  simp only [verifyCtvFanoutManifestSet, bind_eq_ok, ctvRequire_eq_ok] at h
  obtain ⟨-, -, -, -, -, -, -, -, -, -, -, -, -, -, scan, hscan, -⟩ := h
  have hcovers : scan.Covers set.manifests.zipIdx :=
    foldlM_ok_induction (fun done acc => SetScan.Covers acc done)
      ⟨rfl, nodup_nil, fun x hx => absurd hx not_mem_nil⟩
      (fun done x acc acc' => checkSetManifest_covers) hscan
  have hmanifests : set.manifests.zipIdx.map Prod.fst = set.manifests := zipIdx_map_fst _ _
  constructor
  · intro manifest hmem
    rw [← hmanifests] at hmem
    obtain ⟨x, hx, rfl⟩ := mem_map.mp hmem
    exact hcovers.accepted x hx
  · have hvouts := hcovers.distinct
    rw [hcovers.parentVouts, nodup_reverse] at hvouts
    rwa [← hmanifests, map_map]

end QbitPrism
