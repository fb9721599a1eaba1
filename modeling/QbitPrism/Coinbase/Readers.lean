import Mathlib
import QbitPrism.Coinbase.Outputs
import QbitPrism.Ctv.Manifest
import QbitPrism.Tx.Strip

/-!
# How a built coinbase is read

The coinbase of `qbit-pool-builder` goes through the transaction reader of `ctv.rs` and
through the Stratum codec. Both accept it and leave the same bytes without witness data, so
all three agree on its txid; its script starts with the height as BIP34 asks.
-/
namespace QbitPrism
open MachineInt Checked ByteReader List

/-- The shortest little-endian bytes of a positive number whose top bit is clear. -/
structure IsScriptNum (n : ℕ) (bytes : List UInt8) : Prop where
  value : ofLeBytes bytes = n
  positive : ∀ last ∈ bytes.getLast?, last.toNat < 128
  minimal : bytes.getLast? = some 0 → ∃ prev ∈ bytes.dropLast.getLast?, 128 ≤ prev.toNat

/-- What BIP34 asks a coinbase script to start with: the opcode of a height up to 16, or a push
of the height as a script number. -/
def Bip34Encoding (height : ℕ) (script : List UInt8) : Prop :=
  (height ≤ 16 ∧ script = [UInt8.ofNat (0x50 + height)]) ∨
    (16 < height ∧ ∃ num, IsScriptNum height num ∧ num.length ≤ 75 ∧
      script = UInt8.ofNat num.length :: num)

theorem ofLeBytes_append (xs ys : List UInt8) :
    ofLeBytes (xs ++ ys) = ofLeBytes xs + 256 ^ xs.length * ofLeBytes ys := by
  induction xs with
  | nil => simp [ofLeBytes]
  | cons b xs ih =>
    simp only [cons_append, ofLeBytes, ih, length_cons, pow_succ]
    ring

theorem magnitudeBytes_spec {fuel value : ℕ} (h : value < 256 ^ fuel) :
    ofLeBytes (magnitudeBytes fuel value) = value ∧ (magnitudeBytes fuel value).length ≤ fuel ∧
      (magnitudeBytes fuel value).getLast? ≠ some 0 := by
  induction fuel generalizing value with
  | zero =>
    rw [pow_zero, Nat.lt_one_iff] at h
    simp [magnitudeBytes, ofLeBytes, h]
  | succ fuel ih =>
    rw [magnitudeBytes]
    split_ifs with hzero
    · simp [ofLeBytes, hzero]
    · have hquot : value / 256 < 256 ^ fuel := by
        apply Nat.div_lt_of_lt_mul
        rwa [pow_succ, Nat.mul_comm] at h
      have hbyte : (UInt8.ofNat (value % 256)).toNat = value % 256 :=
        UInt8.toNat_ofNat_of_lt (by simp [UInt8.size]; omega)
      obtain ⟨hvalue, hlen, hlast⟩ := ih hquot
      refine ⟨by rw [ofLeBytes, hvalue, hbyte]; omega, by simpa using hlen, ?_⟩
      cases hrest : magnitudeBytes fuel (value / 256) with
      | nil =>
        -- The quotient has no bytes, so the value is its low byte.
        rw [hrest] at hvalue
        intro hhead
        have hlow : UInt8.ofNat (value % 256) = 0 := Option.some.inj hhead
        rw [hlow] at hbyte
        have hmod : value % 256 = 0 := hbyte.symm
        have hdiv : value / 256 = 0 := hvalue.symm
        exact hzero (by omega)
      | cons b bytes =>
        rw [List.getLast?_cons_cons, ← hrest]
        exact hlast

theorem topBit_eq_zero_iff (b : UInt8) : b &&& 0x80 = 0 ↔ b.toNat < 128 := by
  have hnat : ∀ n < 256, n &&& 128 = 0 ↔ n < 128 := by decide +kernel
  rw [← UInt8.toNat_inj, UInt8.toNat_and]
  exact hnat b.toNat b.toNat_lt

theorem minimalScriptNum_spec {height : ℕ} (hpos : 0 < height) (hlt : height < 256 ^ 8) :
    IsScriptNum height (minimalScriptNum height) ∧ (minimalScriptNum height).length ≤ 9 := by
  obtain ⟨hvalue, hlen, hlast⟩ := magnitudeBytes_spec hlt
  have hne : ¬ (height : ℤ) = 0 := by omega
  have hnonneg : ¬ (height : ℤ) < 0 := by omega
  rw [minimalScriptNum, if_neg hne, Int.natAbs_natCast]
  cases hget : (magnitudeBytes 8 height).getLast? with
  | none =>
    rw [List.getLast?_eq_none_iff] at hget
    rw [hget] at hvalue
    simp only [ofLeBytes] at hvalue
    omega
  | some last =>
    simp only [hget, if_neg hnonneg]
    split_ifs with hbit
    · refine ⟨⟨?_, ?_, ?_⟩, by simp; omega⟩
      · simp [ofLeBytes_append, hvalue, ofLeBytes]
      · simp
      · intro _
        refine ⟨last, by simpa using hget, ?_⟩
        have htop := (topBit_eq_zero_iff last).not.mp hbit
        omega
    · refine ⟨⟨hvalue, ?_, ?_⟩, by omega⟩
      · intro b hb
        rw [hget, Option.mem_some_iff] at hb
        rw [← hb]
        exact (topBit_eq_zero_iff last).mp (not_not.mp hbit)
      · exact fun hzero => absurd hzero (hget ▸ hlast)

theorem coinbaseHeightScript_eq_ok {height : U64} {script : List UInt8}
    (h : coinbaseHeightScript height = .ok script) :
    ∃ encoding, Bip34Encoding height.val encoding ∧ encoding <+: script := by
  simp only [coinbaseHeightScript, bind_eq_ok, require_eq_ok] at h
  obtain ⟨-, hmax, h⟩ := h
  split_ifs at h with hsmall
  · obtain rfl := pure_eq_ok.mp h
    refine ⟨_, .inl ⟨hsmall, rfl⟩, ?_⟩
    have hbyte : UInt8.ofNat (0x50 + height.val) = 0x50 + UInt8.ofNat height.val := by
      rw [UInt8.ofNat_add]
      rfl
    rw [hbyte]
    exact prefix_append [_] [0]
  · obtain rfl := pure_eq_ok.mp h
    obtain ⟨hnum, hlen⟩ := minimalScriptNum_spec (show 0 < height.val by omega)
      (by norm_num; omega)
    refine ⟨_, .inr ⟨by omega, _, hnum, by omega, rfl⟩, ?_⟩
    rw [compactPush, if_pos (by omega)]
    exact prefix_rfl

structure CoinbaseBytes (request : CoinbaseBuildRequest) (built : BuiltCoinbase)
    (scriptSig : List UInt8) (nonce : Bytes 32) (lockTime : U32) : Prop where
  script : coinbaseScriptSig request = .ok scriptSig
  withWitness : built.txWithWitness = serializeWithWitness (.wrapping 2) [coinbaseInput scriptSig nonce]
    (built.outputs.map AllocatedOutput.txOut ++ [commitmentTxOut built.witnessCommitmentScript]) lockTime
  withoutWitness : built.txWithoutWitness = leBytes 4 (.wrapping 2 : U32).val ++
    unmarked [coinbaseInput scriptSig nonce]
      (built.outputs.map AllocatedOutput.txOut ++ [commitmentTxOut built.witnessCommitmentScript])
      lockTime false

variable {request : CoinbaseBuildRequest} {built : BuiltCoinbase}

theorem buildCoinbase_bytes {crypto : Crypto} (h : buildCoinbase crypto request = .ok built) :
    ∃ scriptSig nonce lockTime, CoinbaseBytes request built scriptSig nonce lockTime := by
  simp only [buildCoinbase, bind_eq_ok, require_eq_ok, pure_eq_ok] at h
  obtain ⟨outputs, -, nonce, -, leaves, -, input, hinput, lockTime, -, -, -, -, -, -, -,
    totalWeight, -, rfl⟩ := h
  simp only [serializeCoinbaseInput, bind_eq_ok, pure_eq_ok] at hinput
  obtain ⟨scriptSig, hscript, rfl⟩ := hinput
  have hbytes : compactSize 1 ++ (List.replicate 32 0 ++ (leBytes 4 0xffffffff ++
      (compactSize scriptSig.length ++ (scriptSig ++ leBytes 4 0xfffffffe)))) =
      compactSize 1 ++ (coinbaseInput scriptSig nonce).serialize := by
    simp only [TxInput.serialize, coinbaseInput, append_assoc]
    rfl
  refine ⟨scriptSig, nonce, lockTime, hscript, ?_, ?_⟩
  · rw [hbytes, serializeOutputs_eq]
    simp only [serializeWithWitness, map_cons, map_nil, flatten_cons,
      flatten_nil, append_nil, length_singleton, coinbaseInput_serializeWitness]
    rfl
  · rw [hbytes, serializeOutputs_eq]
    simp only [unmarked, map_cons, map_nil, flatten_cons, flatten_nil, append_nil, length_singleton]
    rfl

theorem buildCoinbase_txid {crypto : Crypto} (h : buildCoinbase crypto request = .ok built) :
    built.txid = crypto.hash256 built.txWithoutWitness := by
  simp only [buildCoinbase, bind_eq_ok, pure_eq_ok] at h
  obtain ⟨-, -, -, -, -, -, -, -, -, -, -, -, -, -, -, -, -, -, rfl⟩ := h
  rfl

theorem amount_le_of_split {value : ℕ} {entitlements : List WeightedEntitlement}
    {outputs : List AllocatedOutput} (h : CoinbaseSplit value entitlements outputs)
    {o : AllocatedOutput} (ho : o ∈ outputs) : o.amountSats.val ≤ value := by
  rw [← h.total_eq]
  exact single_le_sum (fun _ _ => Nat.zero_le _) _ (mem_map_of_mem ho)

theorem coinbaseScriptSig_bip34 {scriptSig : List UInt8} (h : coinbaseScriptSig request = .ok scriptSig) :
    (∃ encoding, Bip34Encoding request.blockHeight.val encoding ∧ encoding <+: scriptSig) ∧
      scriptSig.length ≤ maxCoinbaseScriptSigLen := by
  simp only [coinbaseScriptSig, bind_eq_ok, require_eq_ok, pure_eq_ok] at h
  obtain ⟨height, hheight, suffix, -, -, hlen, rfl⟩ := h
  obtain ⟨encoding, hencoding, hprefix⟩ := coinbaseHeightScript_eq_ok hheight
  exact ⟨⟨encoding, hencoding, hprefix.trans (prefix_append height suffix)⟩, hlen⟩

/-- Both readers accept a built coinbase and agree with the builder on its witness-free bytes,
its txid, its outputs and its one input. -/
theorem buildCoinbase_readers_agree {crypto : Crypto} {request : CoinbaseBuildRequest}
    {built : BuiltCoinbase} (fieldName : String) (h : buildCoinbase crypto request = .ok built)
    (hmax : request.coinbaseValueSats.val ≤ qbitMaxMoneySats) :
    ∃ tx input encoding,
      parseTransaction built.txWithWitness fieldName = .ok tx ∧
      stripWitnessTransaction built.txWithWitness = .ok built.txWithoutWitness ∧
      tx.txWithoutWitness = built.txWithoutWitness ∧
      tx.txidHex crypto = displayHashHex built.txid ∧
      allocateOutputs request = .ok built.outputs ∧
      tx.outputs = built.outputs.map AllocatedOutput.txOut ++
        [{ amountSats := 0, scriptPubkey := built.witnessCommitmentScript }] ∧
      tx.inputs = [input] ∧ input.prevTxidHex = Hex.encode (List.replicate 32 0) ∧
      input.prevVout.val = 0xffffffff ∧
      Bip34Encoding request.blockHeight.val encoding ∧ encoding <+: input.scriptSig := by
  obtain ⟨houtputs, ⟨leaves, nonce', hcommitment⟩, hweight, -⟩ := buildCoinbase_eq_ok h
  obtain ⟨scriptSig, nonce, lockTime, hbytes⟩ := buildCoinbase_bytes h
  obtain ⟨⟨encoding, hencoding, hprefix⟩, hscript⟩ := coinbaseScriptSig_bip34 hbytes.script
  have hcount := length_outputs_le.trans (hbytes.withWitness ▸ hweight)
  have hsize := coinbase_sized (hcommitment ▸ length_witnessCommitmentScript crypto leaves nonce')
    hscript hcount nonce
  have hamount : ∀ output ∈ built.outputs.map AllocatedOutput.txOut ++
      [commitmentTxOut built.witnessCommitmentScript], output.amountSats.val ≤ qbitMaxMoneySats := by
    intro output hmem
    rcases mem_append.mp hmem with hmem | hmem
    · obtain ⟨o, ho, rfl⟩ := mem_map.mp hmem
      exact (amount_le_of_split (allocateOutputs_eq_ok houtputs) ho).trans hmax
    · rw [mem_singleton.mp hmem]
      exact Nat.zero_le _
  have hread := parseTransaction_unmarked fieldName (.wrapping 2) lockTime true
    (cons_ne_nil (coinbaseInput scriptSig nonce) []) hamount hsize
  have hstrip := stripWitnessTransaction_serializeWithWitness (cons_ne_nil _ []) hbytes.withWitness
    (lt_of_le_of_lt hweight (by norm_num [maxBlockWeight]))
  rw [← hbytes.withoutWitness] at hread hstrip
  have hparse := (congrArg (parseTransaction · fieldName) hbytes.withWitness).trans hread
  refine ⟨_, (coinbaseInput scriptSig nonce).parsed, encoding, hparse, hstrip, rfl, ?_, houtputs, rfl,
    rfl, ?_, rfl, hencoding, hprefix⟩
  · rw [ParsedTransaction.txidHex, buildCoinbase_txid h]
  · rfl

def sampleRequest : CoinbaseBuildRequest where
  blockHeight := 500
  coinbaseValueSats := 7
  entitlements := [
    { recipientId := "a", orderKey := "a", p2mrProgramHex := Hex.encode (List.replicate 32 1), weight := 1 },
    { recipientId := "b", orderKey := "b", p2mrProgramHex := Hex.encode (List.replicate 32 2), weight := 2 }]
  witnessNonceHex := none
  witnessMerkleLeavesHex := []
  coinbaseScriptSigSuffixHex := some "00ff"
  pinnedFirstOutput := none

theorem buildCoinbase_readers_agree_sample :
    ∃ built tx, buildCoinbase constantCrypto sampleRequest = .ok built ∧
      parseTransaction built.txWithWitness "coinbase" = .ok tx ∧
      stripWitnessTransaction built.txWithWitness = .ok built.txWithoutWitness ∧
      tx.txWithoutWitness = built.txWithoutWitness := by
  have hok : (buildCoinbase constantCrypto sampleRequest).isOk = true := by decide +kernel
  obtain ⟨built, hbuilt⟩ := exists_of_isOk hok
  obtain ⟨tx, -, -, hparse, hstrip, hbytes, -⟩ :=
    buildCoinbase_readers_agree "coinbase" hbuilt (by decide)
  exact ⟨built, tx, hbuilt, hparse, hstrip, hbytes⟩

end QbitPrism
