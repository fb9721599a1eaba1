import Mathlib
import QbitPrism.Ctv.Precommitment

/-!
# The fanout manifests of a block

A manifest binds a precommitment to a parent coinbase and to the transaction that spends
its covenant output; a set holds the manifests of one block, one per chunk. The JSON a
precommitment is hashed over is a parameter.
-/
namespace QbitPrism
open MachineInt Checked ByteReader

structure CtvFanoutManifest where
  schema : String
  precommitment : CtvFanoutPrecommitment
  precommitmentSha256Hex : String
  commitmentWitnessLeafHex : String
  parentCoinbaseTxid : String
  parentCoinbaseTxHex : String
  parentCoinbaseVout : U32
  covenantOutputValueSats : U64
  covenantScriptPubkeyHex : String
  fanoutTxHex : String
  fanoutTxid : String
  deriving DecidableEq

structure CtvFanoutManifestSet where
  schema : String
  blockHeight : U64
  coinbaseValueSats : U64
  settlementMode : SettlementMode
  rewardManifestSha256Hex : String
  payoutPolicyManifestSha256Hex : String
  parentCoinbaseTxid : String
  fanoutCount : U32
  fanoutOutputSumSats : U64
  fanoutFeeSats : U64
  covenantOutputValueSats : U64
  manifests : List CtvFanoutManifest
  deriving DecidableEq

/-- The hash functions and the canonical JSON of a precommitment. -/
structure CtvContext extends Crypto where
  precommitmentBytes : CtvFanoutPrecommitment → List UInt8

variable (ctx : CtvContext)

def ParsedTransaction.txidHex (crypto : Crypto) (tx : ParsedTransaction) : String :=
  displayHashHex (crypto.hash256 tx.txWithoutWitness)

def ensureCoinbaseShape (tx : ParsedTransaction) : Except PrismError Unit :=
  match tx.inputs with
  | [input] =>
    ctvRequire (input.prevTxidHex = Hex.encode (List.replicate 32 0) ∧ input.prevVout.val = 0xffffffff)
      "parent coinbase input must spend the null outpoint"
  | _ => .error (invalidCtvManifest "parent coinbase must have exactly one input")

def ctvFanoutTxVersion : ℕ := 3

def validateFanoutTemplate (tx : ParsedTransaction) : Except PrismError Unit := do
  ctvRequire (tx.version.val = ctvFanoutTxVersion)
    "fanout template must be a version 3 (TRUC) transaction"
  match tx.inputs with
  | [input] => do
    ctvRequire (tx.witnessStacks = none) "fanout template transaction must not include witness data"
    ctvRequire (input.scriptSig = []) "fanout template input scriptSig must be empty"
  | _ => .error (invalidCtvManifest "fanout template transaction must have exactly one input")

def u32Bytes (n : ℕ) (reason : String) : Except PrismError (List UInt8) := do
  ctvRequire (n < 2 ^ 32) reason
  pure (leBytes 4 n)

def defaultCtvHashForParsedTx (crypto : Crypto) (tx : ParsedTransaction) (inputIndex : ℕ) :
    Except PrismError (Bytes 32) := do
  ctvRequire (inputIndex < tx.inputs.length) "CTV input index out of range"
  let scripts := tx.inputs.flatMap fun input => compactSize input.scriptSig.length ++ input.scriptSig
  let scriptsHash :=
    if ∃ input ∈ tx.inputs, input.scriptSig ≠ [] then (crypto.sha256 scripts).toList else []
  let inputCount ← u32Bytes tx.inputs.length "CTV input count exceeds uint32"
  let sequences := tx.inputs.flatMap fun input => leBytes 4 input.sequence.val
  let outputCount ← u32Bytes tx.outputs.length "CTV output count exceeds uint32"
  let outputs := tx.outputs.flatMap ParsedTxOut.serialize
  let index ← u32Bytes inputIndex "CTV input index exceeds uint32"
  pure (crypto.sha256 (leBytes 4 tx.version.val ++ (leBytes 4 tx.lockTime.val ++ (scriptsHash ++
    (inputCount ++ ((crypto.sha256 sequences).toList ++ (outputCount ++
      ((crypto.sha256 outputs).toList ++ index))))))))

def ctvLeafScript (ctvHash : Bytes 32) : List UInt8 := 32 :: (ctvHash.toList ++ [0xbb])

def p2mrTapleafHash (crypto : Crypto) (leafScript : List UInt8) : Bytes 32 :=
  crypto.taggedHash "P2MRLeaf" (0xc0 :: (compactSize leafScript.length ++ leafScript))

def p2mrControlBlock : List UInt8 := [0xc1]

def verifyFanoutWitness (tx : ParsedTransaction) (leafScript : List UInt8) : Except PrismError Unit := do
  let witness ← okOr tx.witnessStacks (invalidCtvManifest "fanout transaction must include P2MR witness")
  let inputWitness ← okOr witness.head? (invalidCtvManifest "fanout witness input 0 is missing")
  match inputWitness with
  | [script, control] => do
    ctvRequire (script = leafScript) "fanout witness leaf script mismatch"
    ctvRequire (control = p2mrControlBlock) "fanout witness control block mismatch"
  | _ =>
    .error (invalidCtvManifest "fanout P2MR witness must contain leaf script and control block")

/-- `OP_1 <0x4e73>`: anyone can spend it. -/
def p2aAnchorScriptPubkey : List UInt8 := [0x51, 0x02, 0x4e, 0x73]

def ensureFeeAnchorOutput (output : ParsedTxOut) (declaredVout : U32) (expectedIndex : ℕ) :
    Except PrismError Unit := do
  ctvRequire (declaredVout.val = expectedIndex) "fee anchor vout mismatch"
  ctvRequire (output.amountSats = 0) "fee anchor value must be zero"
  ctvRequire (output.scriptPubkey = p2aAnchorScriptPubkey) "fee anchor must use the P2A scriptPubKey"

def ctvFanoutCommitmentLeafTag : String := "qbit.prism.ctv-fanout.commitment.v1"

def commitmentWitnessLeafHex (crypto : Crypto) (precommitmentSha256Hex : String) :
    Except PrismError String := do
  let precommitmentHash ← decodeHashHex precommitmentSha256Hex "precommitment_sha256_hex"
  pure (crypto.sha256Hex (Hex.utf8 ctvFanoutCommitmentLeafTag ++ precommitmentHash.toList))

def validateManifestHex (manifest : CtvFanoutManifest) : Except PrismError Unit := do
  validateCanonicalSha256Hex manifest.precommitmentSha256Hex "manifest precommitment_sha256_hex"
  validateCanonicalSha256Hex manifest.commitmentWitnessLeafHex "manifest commitment_witness_leaf_hex"
  validateCanonicalSha256Hex manifest.parentCoinbaseTxid "manifest parent_coinbase_txid"
  validateCanonicalHex manifest.parentCoinbaseTxHex "manifest parent_coinbase_tx_hex"
  validateCanonicalHex manifest.covenantScriptPubkeyHex "manifest covenant_script_pubkey_hex"
  validateCanonicalHex manifest.fanoutTxHex "manifest fanout_tx_hex"
  validateCanonicalSha256Hex manifest.fanoutTxid "manifest fanout_txid"

def verifyManifestCommitment (manifest : CtvFanoutManifest) : Except PrismError Unit := do
  let precommitment := manifest.precommitment
  ctvRequire (precommitment.settlementMode ≠ .directCoinbase)
    "direct_coinbase mode cannot include a CTV fanout manifest"
  validateChunkIdentity precommitment.chunkIndex precommitment.chunkCount
  ctvRequire (manifest.precommitmentSha256Hex = ctx.sha256Hex (ctx.precommitmentBytes precommitment))
    "fanout precommitment hash mismatch"
  let leaf ← commitmentWitnessLeafHex ctx.toCrypto manifest.precommitmentSha256Hex
  ctvRequire (manifest.commitmentWitnessLeafHex = leaf) "fanout commitment witness leaf mismatch"
  ctvRequire (precommitment.fanoutInputIndex = 0) "only fanout input index 0 is supported"
  ctvRequire (precommitment.blockHeight.val ≤ 0xffffffff) "block height must fit fanout lock_time"
  validateSha256Hex precommitment.rewardManifestSha256Hex "reward_manifest_sha256_hex"
  validateSha256Hex precommitment.payoutPolicyManifestSha256Hex "payout_policy_manifest_sha256_hex"
  ctvRequire (precommitment.p2mrControlBlockHex = Hex.encode p2mrControlBlock)
    "P2MR control block mismatch"

def verifyManifestParent (manifest : CtvFanoutManifest) : Except PrismError Unit := do
  let parent ← parseTransactionHex manifest.parentCoinbaseTxHex "manifest parent_coinbase_tx_hex"
  ensureCoinbaseShape parent
  ctvRequire (parent.txidHex ctx.toCrypto = manifest.parentCoinbaseTxid) "parent coinbase txid mismatch"
  let covenantOutput ← okOr parent.outputs[manifest.parentCoinbaseVout.val]?
    (invalidCtvManifest "parent coinbase vout is out of range")
  ctvRequire (covenantOutput.amountSats = manifest.covenantOutputValueSats)
    "covenant output value mismatch"
  ctvRequire (covenantOutput.amountSats = manifest.precommitment.covenantOutputValueSats)
    "parent covenant value does not match precommitment"
  ctvRequire (Hex.encode covenantOutput.scriptPubkey = manifest.covenantScriptPubkeyHex)
    "covenant scriptPubKey mismatch"
  ctvRequire (manifest.covenantScriptPubkeyHex = manifest.precommitment.covenantScriptPubkeyHex)
    "parent covenant scriptPubKey does not match precommitment"

def verifyFanoutInput (manifest : CtvFanoutManifest) (fanout : ParsedTransaction) :
    Except PrismError Unit :=
  let precommitment := manifest.precommitment
  match fanout.inputs with
  | [input] => do
    ctvRequire (input.scriptSig = []) "fanout input scriptSig must be empty"
    ctvRequire (input.prevTxidHex = manifest.parentCoinbaseTxid) "fanout prevout txid mismatch"
    ctvRequire (input.prevVout = manifest.parentCoinbaseVout) "fanout prevout vout mismatch"
    ctvRequire (input.sequence = precommitment.fanoutSequence) "fanout sequence mismatch"
    let sequence ← expectedFanoutSequence precommitment.chunkIndex
    ctvRequire (input.sequence = sequence) "fanout sequence must equal the chunk index"
    ctvRequire (fanout.lockTime = precommitment.fanoutLockTime) "fanout lock_time mismatch"
    ctvRequire (precommitment.fanoutLockTime = .wrapping precommitment.blockHeight.val)
      "fanout lock_time must equal block height for unique CTV context"
  | _ => .error (invalidCtvManifest "CTV fanout transaction must spend exactly one input")

/-- The covenant: the template and the fanout have one CTV hash, and the covenant output's
program is the leaf that checks it. -/
def verifyFanoutCovenant (manifest : CtvFanoutManifest) (template fanout : ParsedTransaction) :
    Except PrismError Unit := do
  let precommitment := manifest.precommitment
  let inputIndex := precommitment.fanoutInputIndex.val
  let templateCtvHash ← defaultCtvHashForParsedTx ctx.toCrypto template inputIndex
  ctvRequire (Hex.encode templateCtvHash.toList = precommitment.ctvHashHex)
    "precommitment CTV hash mismatch"
  let ctvHash ← defaultCtvHashForParsedTx ctx.toCrypto fanout inputIndex
  ctvRequire (ctvHash = templateCtvHash) "CTV hash mismatch"
  let leafScript := ctvLeafScript ctvHash
  ctvRequire (Hex.encode leafScript = precommitment.ctvLeafScriptHex) "CTV leaf script mismatch"
  let p2mrProgram := p2mrTapleafHash ctx.toCrypto leafScript
  ctvRequire (Hex.encode p2mrProgram.toList = precommitment.p2mrProgramHex) "P2MR program mismatch"
  ctvRequire (Hex.encode (p2mrScriptPubkey p2mrProgram).toList = manifest.covenantScriptPubkeyHex)
    "covenant scriptPubKey does not match CTV leaf"
  verifyFanoutWitness fanout leafScript

def checkFanoutOutput (sums : FanoutSums) (x : (ParsedTxOut × CtvFanoutOutput) × ℕ) :
    Except PrismError FanoutSums := do
  let ((output, payout), index) := x
  let outputSum ← addSats sums.outputSum output.amountSats "fanout output sum overflowed"
  let feeSum ← addSats sums.feeSum payout.feeSats "fanout fee sum overflowed"
  ctvRequire (payout.vout = .wrapping index) s!"fanout output {index} vout mismatch"
  ctvRequire (output.amountSats = payout.amountSats) s!"fanout output {index} amount mismatch"
  let program ← decodeProgramHex payout.p2mrProgramHex "payout p2mr_program_hex"
  let expectedScript := (p2mrScriptPubkey program).toList
  ctvRequire (output.scriptPubkey = expectedScript) s!"fanout output {index} scriptPubKey mismatch"
  ctvRequire (Hex.encode expectedScript = payout.scriptPubkeyHex)
    s!"fanout output {index} manifest scriptPubKey mismatch"
  pure { outputSum, feeSum }

/-- The anchor after the payouts, when the precommitment declares one. -/
def verifyFanoutAnchor (precommitment : CtvFanoutPrecommitment) (fanout : ParsedTransaction) :
    Except PrismError Unit :=
  match precommitment.anchorVout with
  | none => .ok ()
  | some anchorVout => do
    let anchor ← okOr fanout.outputs[precommitment.outputs.length]? (.panicked "index out of bounds")
    ensureFeeAnchorOutput anchor anchorVout precommitment.outputs.length

def verifyFanoutOutputs (manifest : CtvFanoutManifest) (fanout : ParsedTransaction) :
    Except PrismError Unit := do
  let precommitment := manifest.precommitment
  let anchors := if precommitment.anchorVout.isSome then 1 else 0
  ctvRequire (fanout.outputs.length = precommitment.outputs.length + anchors)
    (if precommitment.anchorVout.isSome then
      "fanout must have exactly the payouts plus one fee anchor output"
    else "built-in-fee fanout must have exactly the payout outputs")
  let sums ← (fanout.outputs.zip precommitment.outputs).zipIdx.foldlM checkFanoutOutput
    { outputSum := 0, feeSum := 0 }
  ctvRequire (sums.outputSum = precommitment.fanoutOutputSumSats) "fanout output sum mismatch"
  ctvRequire (sums.feeSum = precommitment.fanoutFeeSats) "fanout fee sum mismatch"
  verifyFanoutAnchor precommitment fanout
  let funded ← addSats sums.outputSum sums.feeSum "fanout funded value overflowed"
  ctvRequire (funded = manifest.covenantOutputValueSats)
    "fanout payouts plus fee do not equal covenant output value"

def ctvFanoutManifestSchema : String := "qbit.prism.ctv-fanout-manifest.v1"

def verifyCtvFanoutManifestStructure (manifest : CtvFanoutManifest) : Except PrismError Unit := do
  ctvRequire (manifest.schema = ctvFanoutManifestSchema) "unexpected fanout manifest schema"
  verifyPrecommitment manifest.precommitment
  validateManifestHex manifest
  verifyManifestCommitment ctx manifest
  verifyManifestParent ctx manifest
  let template ← parseTransactionHex manifest.precommitment.fanoutTxTemplateHex
    "manifest fanout_tx_template_hex"
  validateFanoutTemplate template
  let fanout ← parseTransactionHex manifest.fanoutTxHex "manifest fanout_tx_hex"
  ctvRequire (fanout.txidHex ctx.toCrypto = manifest.fanoutTxid) "fanout txid mismatch"
  verifyFanoutInput manifest fanout
  verifyFanoutCovenant ctx manifest template fanout
  verifyFanoutOutputs manifest fanout

def verifyCtvFanoutManifestCommitmentLeaf (manifest : CtvFanoutManifest)
    (auditCommitmentLeavesHex : List String) : Except PrismError Unit := do
  verifyCtvFanoutManifestStructure ctx manifest
  ctvRequire (∃ leaf ∈ auditCommitmentLeavesHex, eqIgnoreAsciiCase leaf manifest.commitmentWitnessLeafHex)
    "fanout precommitment witness leaf is missing"

def padded (n : ℕ) : String := "".pushn '0' (8 - (toString n).length) ++ toString n

/-- What the pass over a set remembers of the manifests before. -/
structure SetScan where
  parentVouts : List U32
  ctvHashes : List String
  fanoutTxids : List String
  commitmentLeaves : List String
  outputSum : U64
  feeSum : U64
  covenantSum : U64

def SetScan.start : SetScan :=
  { parentVouts := [], ctvHashes := [], fanoutTxids := [], commitmentLeaves := []
    outputSum := 0, feeSum := 0, covenantSum := 0 }

def checkSetMember (set : CtvFanoutManifestSet) (manifest : CtvFanoutManifest) (expectedIndex : ℕ) :
    Except PrismError Unit := do
  let precommitment := manifest.precommitment
  ctvRequire (precommitment.chunkIndex = .wrapping expectedIndex)
    "fanout manifest set chunks must be contiguous and canonical"
  ctvRequire (precommitment.chunkCount = set.fanoutCount) "fanout chunk count mismatch"
  ctvRequire (precommitment.blockHeight = set.blockHeight) "fanout set block height mismatch"
  ctvRequire (precommitment.coinbaseValueSats = set.coinbaseValueSats)
    "fanout set coinbase value mismatch"
  ctvRequire (precommitment.settlementMode = set.settlementMode) "fanout set settlement mode mismatch"
  ctvRequire (precommitment.rewardManifestSha256Hex = set.rewardManifestSha256Hex)
    "fanout set reward manifest mismatch"
  ctvRequire (precommitment.payoutPolicyManifestSha256Hex = set.payoutPolicyManifestSha256Hex)
    "fanout set payout policy manifest mismatch"
  ctvRequire (manifest.parentCoinbaseTxid = set.parentCoinbaseTxid) "fanout set parent coinbase mismatch"

def checkSetManifest (set : CtvFanoutManifestSet) (scan : SetScan) (x : CtvFanoutManifest × ℕ) :
    Except PrismError SetScan := do
  let (manifest, expectedIndex) := x
  let precommitment := manifest.precommitment
  verifyCtvFanoutManifestStructure ctx manifest
  checkSetMember set manifest expectedIndex
  let parentVouts ← insertNew scan.parentVouts manifest.parentCoinbaseVout
    "duplicate fanout parent coinbase vout"
  let ctvHashes ← insertNew scan.ctvHashes precommitment.ctvHashHex "duplicate fanout CTV hash"
  let fanoutTxids ← insertNew scan.fanoutTxids manifest.fanoutTxid "duplicate fanout txid"
  let commitmentLeaves ← insertNew scan.commitmentLeaves manifest.commitmentWitnessLeafHex
    "duplicate fanout commitment witness leaf"
  let outputSum ← addSats scan.outputSum precommitment.fanoutOutputSumSats
    "fanout set output sum overflowed"
  let feeSum ← addSats scan.feeSum precommitment.fanoutFeeSats "fanout set fee sum overflowed"
  let covenantSum ← addSats scan.covenantSum manifest.covenantOutputValueSats
    "fanout set covenant value overflowed"
  pure { parentVouts, ctvHashes, fanoutTxids, commitmentLeaves, outputSum, feeSum, covenantSum }

def ctvFanoutManifestSetSchema : String := "qbit.prism.ctv-fanout-manifest-set.v1"

def verifyCtvFanoutManifestSet (set : CtvFanoutManifestSet) : Except PrismError Unit := do
  ctvRequire (set.schema = ctvFanoutManifestSetSchema) "unexpected fanout manifest set schema"
  ctvRequire (set.manifests ≠ []) "fanout manifest set is empty"
  ctvRequire (set.fanoutCount.val = set.manifests.length) "fanout manifest set count mismatch"
  ctvRequire (set.settlementMode ≠ .directCoinbase)
    "direct_coinbase mode cannot include a CTV fanout manifest set"
  validateCanonicalSha256Hex set.rewardManifestSha256Hex "fanout set reward_manifest_sha256_hex"
  validateCanonicalSha256Hex set.payoutPolicyManifestSha256Hex
    "fanout set payout_policy_manifest_sha256_hex"
  validateCanonicalSha256Hex set.parentCoinbaseTxid "fanout set parent_coinbase_txid"
  let scan ← set.manifests.zipIdx.foldlM (checkSetManifest ctx set) SetScan.start
  ctvRequire (scan.outputSum = set.fanoutOutputSumSats) "fanout set output sum mismatch"
  ctvRequire (scan.feeSum = set.fanoutFeeSats) "fanout set fee sum mismatch"
  ctvRequire (scan.covenantSum = set.covenantOutputValueSats) "fanout set covenant value mismatch"
  let funded ← addSats scan.outputSum scan.feeSum "fanout set funded value overflowed"
  ctvRequire (funded = scan.covenantSum) "fanout set payouts plus fee do not equal covenant value"

end QbitPrism
