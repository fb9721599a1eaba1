import Mathlib
import QbitPrism.Coinbase.Builder
import QbitPrism.Tx.Serialize

/-!
# What a built coinbase pays

One output per entitlement, in some order, each the quota of its weight; when the weights
add up to the coinbase value every output is exactly its weight. The transaction's bytes
read back as these outputs and the witness commitment.
-/
namespace QbitPrism
open MachineInt Checked SortBy LargestRemainder ByteReader List

structure PaysEntitlement (e : WeightedEntitlement) (o : AllocatedOutput) : Prop where
  recipientId : o.recipientId = e.recipientId
  orderKey : o.orderKey = e.orderKey
  program : Hex.decode e.p2mrProgramHex = .ok o.p2mrProgram.toList
  weight : o.weight = e.weight

/-- The outputs of a coinbase of `value` over entitlements. -/
structure CoinbaseSplit (value : ℕ) (entitlements : List WeightedEntitlement)
    (outputs : List AllocatedOutput) : Prop where
  entries : ∃ ordered : List WeightedEntitlement, ordered.Perm entitlements ∧
    List.Forall₂ PaysEntitlement ordered outputs
  total_eq : (outputs.map fun o => o.amountSats.val).sum = value
  quota : ∀ o ∈ outputs,
    IsQuota value (entitlements.map fun e => e.weight.val).sum o.weight.val o.amountSats.val
  positive : 0 < (entitlements.map fun e => e.weight.val).sum

variable {entitlements : List WeightedEntitlement}

theorem orderEntitlements_perm {ordered : List WeightedEntitlement}
    {pinned : Option PinnedFirstOutput} (h : orderEntitlements entitlements pinned = .ok ordered) :
    ordered.Perm entitlements := by
  have hsort := sortBy_perm WeightedEntitlement.cmp entitlements
  cases pinned with
  | none =>
    cases h
    exact hsort
  | some pinned =>
    simp only [orderEntitlements, bind_eq_ok, pure_eq_ok] at h
    obtain ⟨index, -, rfl⟩ := h
    refine List.Perm.trans ?_ hsort
    by_cases hindex : index < (sortBy WeightedEntitlement.cmp entitlements).length
    · rw [List.getElem?_eq_getElem hindex]
      exact getElem_cons_eraseIdx_perm hindex
    · rw [List.getElem?_eq_none (by omega), eraseIdx_of_length_le (by omega)]
      rfl

theorem sumWeights_eq_ok {total : U128} (h : sumWeights entitlements = .ok total) :
    total.val = (entitlements.map fun e => e.weight.val).sum ∧ ∀ e ∈ entitlements, e.weight ≠ 0 := by
  refine foldlM_ok_induction (fun done (acc : U128) =>
    acc.val = (done.map fun e : WeightedEntitlement => e.weight.val).sum ∧ ∀ e ∈ done, e.weight ≠ 0)
    (by simp) ?_ h
  intro done e acc acc' ih hstep
  simp only [bind_eq_ok, require_eq_ok, okOr_eq_ok, Unsigned.checkedAdd_eq_some] at hstep
  obtain ⟨-, hne, hacc'⟩ := hstep
  constructor
  · simp [hacc', ih.1]
  · intro x hx
    rcases mem_append.mp hx with hx | hx
    · exact ih.2 x hx
    · exact mem_singleton.mp hx ▸ hne

theorem parseP2mrProgram_eq_ok {e : WeightedEntitlement} {program : Bytes 32}
    (h : parseP2mrProgram e = .ok program) : Hex.decode e.p2mrProgramHex = .ok program.toList := by
  simp only [parseP2mrProgram, bind_eq_ok, mapError_eq_ok, okOr_eq_ok, Bytes.ofList?_eq_some] at h
  obtain ⟨bytes, hbytes, rfl⟩ := h
  exact hbytes

theorem provisionalOutput_eq_ok {value : U64} {totalWeight : U128} {e : WeightedEntitlement}
    {p : Provisional 64 OutputShare} (h : provisionalOutput value totalWeight e = .ok p) :
    PaysEntitlement e { p.entry with amountSats := p.amount } ∧
      p.amount.val = value.val * e.weight.val / totalWeight.val ∧
      p.remainder = value.val * e.weight.val % totalWeight.val := by
  simp only [provisionalOutput, bind_eq_ok, okOr_eq_ok, pure_eq_ok, Unsigned.checkedMul_eq_some,
    Unsigned.ofNat?_eq_some, U64.toU128_val] at h
  obtain ⟨program, hprogram, product, hproduct, amount, hamount, rfl⟩ := h
  refine ⟨⟨rfl, rfl, parseP2mrProgram_eq_ok hprogram, rfl⟩, ?_, ?_⟩
  · rw [hamount, hproduct]
  · exact hproduct ▸ rfl

instance : Std.TransCmp outputRemainderCmp := by
  unfold outputRemainderCmp
  have := transCmp_comap (fun a b : ℕ => compare b a)
    (Provisional.remainder : Provisional 64 OutputShare → ℕ)
  infer_instance

theorem le_outputRemainderCmp {a b : Provisional 64 OutputShare} (h : Le outputRemainderCmp a b) :
    b.remainder ≤ a.remainder := by
  simp only [Le, outputRemainderCmp, compareLex] at h
  by_contra hlt
  rw [(Nat.compare_eq_gt (a := b.remainder) (b := a.remainder)).mpr (by omega)] at h
  simp at h

variable {request : CoinbaseBuildRequest} {outputs : List AllocatedOutput}

section
variable (h : allocateOutputs request = .ok outputs)
include h

theorem allocateOutputs_bumped :
    ∃ ordered totalWeight ps bumped,
      orderEntitlements request.entitlements request.pinnedFirstOutput = .ok ordered ∧
      totalWeight.val = (ordered.map fun e => e.weight.val).sum ∧ 0 < totalWeight.val ∧
      ordered.mapM (provisionalOutput request.coinbaseValueSats totalWeight) = .ok ps ∧
      bumpAll ps ((remainderOrder (Le outputRemainderCmp) ps).take
        (request.coinbaseValueSats.val - held ps)) = some bumped ∧
      outputs = bumped.map fun p => { p.entry with amountSats := p.amount } := by
  simp only [allocateOutputs, bind_eq_ok, require_eq_ok, okOr_eq_ok, pure_eq_ok, requireTotal,
    Unsigned.checkedSum_eq_some, Unsigned.checkedSub_eq_some, map_map, Function.comp_def] at h
  obtain ⟨-, -, -, hne, ordered, hordered, W, hW, ps, hps, allocated, halloc, rest, hrest, bumped,
    hbumped, -, -, -, -, rfl⟩ := h
  have hperm := orderEntitlements_perm hordered
  obtain ⟨hsum, hweights⟩ := sumWeights_eq_ok hW
  have hpos : 0 < W.val := by
    obtain ⟨e, he⟩ := exists_mem_of_ne_nil _ hne
    have hle := single_le_sum (l := ordered.map fun e => e.weight.val)
      (fun _ _ => Nat.zero_le _) _ (mem_map_of_mem (hperm.mem_iff.mpr he))
    have hne0 : e.weight.val ≠ 0 := fun h0 =>
      hweights e (hperm.mem_iff.mpr he) (Unsigned.ext (h0.trans Unsigned.val_zero.symm))
    omega
  have hleft : rest.val = request.coinbaseValueSats.val - held ps := by
    rw [held, ← halloc]
    omega
  exact ⟨ordered, W, ps, bumped, hordered, hsum, hpos, hps, hleft ▸ hbumped, rfl⟩

theorem allocateOutputs_ordered :
    (∃ ordered, orderEntitlements request.entitlements request.pinnedFirstOutput = .ok ordered ∧
      List.Forall₂ PaysEntitlement ordered outputs) ∧
      CoinbaseSplit request.coinbaseValueSats.val request.entitlements outputs := by
  obtain ⟨ordered, W, ps, bumped, hordered, hsum, hpos, hps, hbumped, rfl⟩ := allocateOutputs_bumped h
  have hperm := orderEntitlements_perm hordered
  have hsplit : IsSplit request.coinbaseValueSats.val (fun s : OutputShare => s.weight.val) ps := by
    refine IsSplit.of_mapM hsum hpos hps ?_
    intro e p hp
    obtain ⟨hpays, hamount, hremainder⟩ := provisionalOutput_eq_ok hp
    exact ⟨congrArg Unsigned.val hpays.weight, hamount, hremainder⟩
  obtain ⟨htotal, hquota⟩ :=
    hsplit.finish (Le outputRemainderCmp) (fun _ _ => le_outputRemainderCmp) hbumped
  have hentries := bumpAll_entries (remainderOrder_nodup _ _ _) hbumped
  have hW' : (ps.map fun p => p.entry.weight.val).sum =
      (request.entitlements.map fun e => e.weight.val).sum := by
    rw [← (hperm.map fun e => e.weight.val).sum_eq]
    exact congrArg List.sum (map_eq_of_mapM_ok (fun e : WeightedEntitlement => e.weight.val)
      (fun p : Provisional 64 OutputShare => p.entry.weight.val) hps
      fun e p hp => congrArg Unsigned.val (provisionalOutput_eq_ok hp).1.weight)
  have hentitled : List.Forall₂ PaysEntitlement ordered
      (bumped.map fun p => { p.entry with amountSats := p.amount : AllocatedOutput }) := by
    -- The bumped shares have the entries of the provisional ones, place by place.
    have hpays : List.Forall₂ (fun e (s : OutputShare) => ∀ amount,
        PaysEntitlement e { s with amountSats := amount }) ordered (ps.map (·.entry)) := by
      rw [List.forall₂_map_right_iff]
      refine (mapM_eq_ok.mp hps).imp ?_
      intro e p hp amount
      obtain ⟨hrecipient, horder, hprogram, hweight⟩ := (provisionalOutput_eq_ok hp).1
      exact ⟨hrecipient, horder, hprogram, hweight⟩
    rw [← hentries, List.forall₂_map_right_iff] at hpays
    rw [List.forall₂_map_right_iff]
    exact hpays.imp fun e p hp => hp p.amount
  refine ⟨⟨ordered, hordered, hentitled⟩, ⟨ordered, hperm, hentitled⟩, ?_, ?_, ?_⟩
  · rw [map_map]
    exact htotal
  · intro o ho
    obtain ⟨p, hp, rfl⟩ := mem_map.mp ho
    exact hW' ▸ hquota p hp
  · rw [← hW']
    exact hsplit.positive

theorem allocateOutputs_eq_ok :
    CoinbaseSplit request.coinbaseValueSats.val request.entitlements outputs :=
  (allocateOutputs_ordered h).2

end

theorem CoinbaseSplit.exact {value : ℕ} (h : CoinbaseSplit value entitlements outputs)
    (hsum : (entitlements.map fun e => e.weight.val).sum = value) {o : AllocatedOutput}
    (ho : o ∈ outputs) : o.amountSats.val = o.weight.val := by
  have hquota := h.quota o ho
  have hpos := h.positive
  rw [hsum] at hquota hpos
  exact hquota.eq_weight hpos

/-- The coinbase input: the null outpoint, with the nonce as its witness. -/
def coinbaseInput (scriptSig : List UInt8) (nonce : Bytes 32) : TxInput :=
  { prevTxid := zeroHash
    prevVout := .wrapping 0xffffffff
    scriptSig
    sequence := .wrapping 0xfffffffe
    witnessStack := [nonce.toList] }

theorem serializeCoinbaseInput_eq_ok {bytes : List UInt8}
    (h : serializeCoinbaseInput request = .ok bytes) (nonce : Bytes 32) :
    ∃ scriptSig, scriptSig.length ≤ maxCoinbaseScriptSigLen ∧
      bytes = compactSize 1 ++ (coinbaseInput scriptSig nonce).serialize := by
  simp only [serializeCoinbaseInput, coinbaseScriptSig, bind_eq_ok, pure_eq_ok, require_eq_ok] at h
  obtain ⟨scriptSig, ⟨height, -, suffix, -, -, hlen, hscript⟩, rfl⟩ := h
  refine ⟨scriptSig, hscript ▸ hlen, ?_⟩
  simp only [TxInput.serialize, coinbaseInput, append_assoc]
  rfl

theorem coinbaseInput_serializeWitness (scriptSig : List UInt8) (nonce : Bytes 32) :
    (coinbaseInput scriptSig nonce).serializeWitness = serializeWitness nonce := by
  simp [TxInput.serializeWitness, coinbaseInput, serializeWitness]

def commitmentTxOut (commitmentScript : List UInt8) : ParsedTxOut :=
  { amountSats := 0, scriptPubkey := commitmentScript }

theorem serializeOutputs_eq (outputs : List AllocatedOutput) (commitmentScript : List UInt8) :
    serializeOutputs outputs commitmentScript =
      compactSize (outputs.map AllocatedOutput.txOut ++ [commitmentTxOut commitmentScript]).length ++
        ((outputs.map AllocatedOutput.txOut ++ [commitmentTxOut commitmentScript]).map
          ParsedTxOut.serialize).flatten := by
  rw [serializeOutputs, length_append, length_map, length_singleton, map_append, map_map, flatten_append, flatMap_def]
  simp only [map_cons, map_nil, flatten_cons, flatten_nil, append_nil]
  rfl

variable {crypto : Crypto}

theorem buildCoinbase_eq_ok {built : BuiltCoinbase} (h : buildCoinbase crypto request = .ok built) :
    allocateOutputs request = .ok built.outputs ∧
      (∃ leaves nonce, built.witnessCommitmentScript = witnessCommitmentScript crypto leaves nonce) ∧
      built.txWithWitness.length ≤ maxBlockWeight ∧
      ∃ scriptSig nonce lockTime, scriptSig.length ≤ maxCoinbaseScriptSigLen ∧
        built.txWithWitness = serializeWithWitness (.wrapping 2) [coinbaseInput scriptSig nonce]
          (built.outputs.map AllocatedOutput.txOut ++ [commitmentTxOut built.witnessCommitmentScript])
          lockTime ∧
        serializeWithoutWitness (.wrapping 2) ([coinbaseInput scriptSig nonce].map TxInput.parsed)
          (built.outputs.map AllocatedOutput.txOut ++ [commitmentTxOut built.witnessCommitmentScript])
          lockTime = .ok built.txWithoutWitness := by
  simp only [buildCoinbase, bind_eq_ok, require_eq_ok, pure_eq_ok] at h
  obtain ⟨outputs, houtputs, nonce, -, leaves, -, input, hinput, lockTime, -, -, hweight, -, -, -, -,
    totalWeight, -, rfl⟩ := h
  obtain ⟨scriptSig, hscript, rfl⟩ := serializeCoinbaseInput_eq_ok hinput nonce
  refine ⟨houtputs, ⟨leaves, nonce, rfl⟩, hweight, scriptSig, nonce, lockTime, hscript, ?_, ?_⟩
  · rw [serializeOutputs_eq]
    simp only [serializeWithWitness, map_cons, map_nil, flatten_cons, flatten_nil,
      append_nil, length_singleton, coinbaseInput_serializeWitness]
    rfl
  · rw [serializeWithoutWitness_parsed, serializeOutputs_eq]
    simp only [unmarked, map_cons, map_nil, flatten_cons, flatten_nil, append_nil, length_singleton]
    rfl

theorem AllocatedOutput.length_scriptPubkey (output : AllocatedOutput) :
    output.scriptPubkey.length = 34 := List.Vector.toList_length _

theorem length_witnessCommitmentScript (crypto : Crypto) (leaves : List (Bytes 32)) (nonce : Bytes 32) :
    (witnessCommitmentScript crypto leaves nonce).length = 38 := by
  simp [witnessCommitmentScript]

theorem witnessCommitmentScript_ne (crypto : Crypto) (leaves : List (Bytes 32)) (nonce program : Bytes 32) :
    witnessCommitmentScript crypto leaves nonce ≠ (p2mrScriptPubkey program).toList := by
  intro h
  have hhead := (List.cons.inj h).1
  exact absurd hhead (by decide)

theorem length_outputs_le {inputs : List TxInput} {outputs : List ParsedTxOut} {version lockTime : U32} :
    outputs.length ≤ (serializeWithWitness version inputs outputs lockTime).length := by
  have hle : (outputs.map ParsedTxOut.serialize).length ≤
      (outputs.map ParsedTxOut.serialize).flatten.length := by
    apply length_le_flatten
    intro bytes hmem
    obtain ⟨output, -, rfl⟩ := mem_map.mp hmem
    exact output.serialize_ne_nil
  rw [length_map] at hle
  simp only [serializeWithWitness, length_append]
  omega

theorem coinbase_sized {commitmentScript scriptSig : List UInt8} (hcommitment : commitmentScript.length = 38)
    (hscript : scriptSig.length ≤ maxCoinbaseScriptSigLen)
    (hcount : (outputs.map AllocatedOutput.txOut ++ [commitmentTxOut commitmentScript]).length ≤ maxBlockWeight)
    (nonce : Bytes 32) :
    Sized [coinbaseInput scriptSig nonce]
      (outputs.map AllocatedOutput.txOut ++ [commitmentTxOut commitmentScript]) := by
  refine ⟨by simp, lt_of_le_of_lt hcount (by norm_num [maxBlockWeight]), ?_, ?_, ?_, ?_⟩
  · simp only [mem_singleton, forall_eq]
    exact lt_of_le_of_lt hscript (by norm_num [maxCoinbaseScriptSigLen])
  · simp [coinbaseInput]
  · simp [coinbaseInput]
  · intro output hmem
    rcases mem_append.mp hmem with hmem | hmem
    · obtain ⟨o, -, rfl⟩ := mem_map.mp hmem
      rw [AllocatedOutput.txOut, o.length_scriptPubkey]
      norm_num
    · rw [mem_singleton.mp hmem, commitmentTxOut, hcommitment]
      norm_num

theorem buildCoinbase_parsed {built : BuiltCoinbase} (h : buildCoinbase crypto request = .ok built)
    {fieldName : String} {tx : ParsedTransaction}
    (htx : parseTransactionHex (Hex.encode built.txWithWitness) fieldName = .ok tx) :
    tx.outputs = built.outputs.map AllocatedOutput.txOut ++
        [commitmentTxOut built.witnessCommitmentScript] ∧
      tx.txWithoutWitness = built.txWithoutWitness := by
  obtain ⟨-, ⟨leaves, nonce, hcommitment⟩, hweight, scriptSig, nonce', lockTime, hscript, hbytes,
    hwithout⟩ := buildCoinbase_eq_ok h
  rw [parseTransactionHex_encode, hbytes] at htx
  have hcount : (built.outputs.map AllocatedOutput.txOut ++
      [commitmentTxOut built.witnessCommitmentScript]).length ≤ maxBlockWeight :=
    (hbytes ▸ length_outputs_le).trans hweight
  have hsize := coinbase_sized (hcommitment ▸ length_witnessCommitmentScript crypto leaves nonce)
    hscript hcount nonce'
  have hread := parseTransaction_serializeWithWitness (cons_ne_nil _ _) hsize htx
  have hsame := parseTransaction_without htx
  rw [hread] at hsame ⊢
  exact ⟨rfl, Except.ok.inj (hsame.symm.trans hwithout)⟩

/-- A built manifest: its outputs, and what its transaction reads back as. -/
structure BuiltManifest (request : CoinbaseBuildRequest) (manifest : PayoutManifest)
    (outputs : List AllocatedOutput) (commitmentScript : List UInt8) : Prop where
  split : CoinbaseSplit request.coinbaseValueSats.val request.entitlements outputs
  outputs_eq : manifest.outputs = outputs.zipIdx.map fun x => payoutOutput x.1 x.2
  commitment_ne : ∀ program, commitmentScript ≠ (p2mrScriptPubkey program).toList
  parsed : ∀ fieldName tx, parseTransactionHex manifest.coinbaseTxHex fieldName = .ok tx →
    tx.outputs = outputs.map AllocatedOutput.txOut ++ [commitmentTxOut commitmentScript]

theorem buildManifest_eq_ok {manifest : PayoutManifest} (h : buildManifest crypto request = .ok manifest) :
    ∃ outputs commitmentScript, BuiltManifest request manifest outputs commitmentScript := by
  simp only [buildManifest, bind_eq_ok, pure_eq_ok] at h
  obtain ⟨built, hbuilt, scriptSig, -, suffix, -, nonce, -, rfl⟩ := h
  obtain ⟨houtputs, ⟨leaves, nonce, hcommitment⟩, -⟩ := buildCoinbase_eq_ok hbuilt
  refine ⟨built.outputs, built.witnessCommitmentScript, allocateOutputs_eq_ok houtputs, rfl, ?_, ?_⟩
  · rw [hcommitment]
    exact witnessCommitmentScript_ne crypto leaves nonce
  · intro fieldName tx htx
    exact (buildCoinbase_parsed hbuilt htx).1

end QbitPrism
