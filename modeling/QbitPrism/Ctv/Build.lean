import Mathlib
import QbitPrism.Ctv.Manifest
import QbitPrism.Lib.SortBy
import QbitPrism.Tx.Serialize

/-!
# Building fanouts

The precommitment of a chunk is prepared before the coinbase exists; its manifest follows when
the coinbase is known, from the precommitment alone (`ctv.rs`).
-/
namespace QbitPrism
open MachineInt Checked ByteReader SortBy

structure CtvFanoutPayout extends PayoutIdentity where
  grossAmountSats : U64
  feeSats : U64
  amountSats : U64
  deriving DecidableEq

structure CtvFanoutPrecommitmentInput where
  blockHeight : U64
  chunkIndex : U32
  chunkCount : U32
  coinbaseValueSats : U64
  settlementMode : SettlementMode
  rewardManifestSha256Hex : String
  payoutPolicyManifestSha256Hex : String
  payouts : List CtvFanoutPayout

structure CtvFanoutManifestInput extends CtvFanoutPrecommitmentInput where
  fanoutTxTemplateHex : String
  parentCoinbaseTxHex : String
  parentCoinbaseVout : U32
  fanoutTxHex : String

structure PreparedCtvFanout where
  precommitment : CtvFanoutPrecommitment
  precommitmentSha256Hex : String
  commitmentWitnessLeafHex : String
  covenantRecipientId : String
  covenantOrderKey : String
  covenantP2mrProgramHex : String
  covenantOutputValueSats : U64

variable (ctx : CtvContext)

def canonicalPayout (payout : CtvFanoutPayout) : Except PrismError CtvFanoutPayout := do
  let program ← canonicalP2mrProgramHex payout.p2mrProgramHex "payout p2mr_program_hex"
  pure { payout with p2mrProgramHex := program }

def fanoutPayoutCmp : CtvFanoutPayout → CtvFanoutPayout → Ordering :=
  compareLex (fun a b => a.toPayoutIdentity.canonicalCmp b.toPayoutIdentity)
    (compareOn (·.amountSats.val))

/-- The amount before the fee; a payout that states none has no fee. -/
def CtvFanoutPayout.grossSats (payout : CtvFanoutPayout) : U64 :=
  if payout.grossAmountSats = 0 then payout.amountSats else payout.grossAmountSats

def pushFanoutOutput (state : List CtvFanoutOutput × List PayoutIdentity) (x : CtvFanoutPayout × ℕ) :
    Except PrismError (List CtvFanoutOutput × List PayoutIdentity) := do
  let (outputs, seen) := state
  let (payout, index) := x
  ctvRequire (payout.amountSats ≠ 0) "fanout payout amount must be positive"
  let total ← addSats payout.amountSats payout.feeSats "fanout payout gross amount overflowed"
  ctvRequire (total = payout.grossSats) "fanout payout gross amount must equal amount plus fee"
  let program ← decodeProgramHex payout.p2mrProgramHex "payout p2mr_program_hex"
  let seen ← insertNew seen payout.toPayoutIdentity "duplicate fanout payout recipient"
  pure (outputs ++ [{
    payout.toPayoutIdentity with
    vout := .wrapping index
    scriptPubkeyHex := Hex.encode (p2mrScriptPubkey program).toList
    grossAmountSats := payout.grossSats
    feeSats := payout.feeSats
    amountSats := payout.amountSats }], seen)

def canonicalFanoutOutputs (payouts : List CtvFanoutPayout) :
    Except PrismError (List CtvFanoutOutput) := do
  ctvRequire (payouts ≠ []) "fanout must have at least one payout"
  let canonical ← payouts.mapM canonicalPayout
  let (outputs, _) ← (sortBy fanoutPayoutCmp canonical).zipIdx.foldlM pushFanoutOutput ([], [])
  pure outputs

def fanoutOutputSum (outputs : List CtvFanoutOutput) : Except PrismError U64 :=
  okOr (Unsigned.checkedSum (outputs.map (·.amountSats)))
    (invalidCtvManifest "fanout output sum overflowed")

def fanoutFeeSum (outputs : List CtvFanoutOutput) : Except PrismError U64 :=
  okOr (Unsigned.checkedSum (outputs.map (·.feeSats))) (invalidCtvManifest "fanout fee sum overflowed")

def fanoutHasCpfpAnchor (fanoutFeeSats : U64) : Bool := fanoutFeeSats = 0

def anchorVoutForFee (outputCount : ℕ) (fanoutFeeSats : U64) : Except PrismError (Option U32) :=
  if fanoutHasCpfpAnchor fanoutFeeSats then do
    let vout ← okOr (Unsigned.ofNat? outputCount)
      (invalidCtvManifest "fanout anchor vout exceeds uint32")
    pure (some vout)
  else .ok none

def normalizeHex (value : String) : Except PrismError String := do
  let bytes ← (Hex.decode value).mapError fun err =>
    invalidCtvManifest s!"invalid transaction hex: {err.text}"
  pure (Hex.encode bytes)

/-- `normalize_txid_hex` takes 32 bytes, as the hashes do. -/
def normalizeTxidHex (value fieldName : String) : Except PrismError String := do
  let txid ← decodeHashHex value fieldName
  pure (Hex.encode txid.toList)

def outputSpecFromFanoutOutput (output : CtvFanoutOutput) : Except PrismError TxOutputSpec := do
  let scriptPubkey ← (Hex.decode output.scriptPubkeyHex).mapError fun err =>
    invalidCtvManifest s!"fanout output scriptPubKey must be canonical hex: {err.text}"
  pure { amountSats := output.amountSats, scriptPubkey }

def p2aAnchorOutputSpec : TxOutputSpec :=
  { amountSats := 0, scriptPubkey := p2aAnchorScriptPubkey }

def fanoutOutputSpecs (outputs : List CtvFanoutOutput) (includeAnchor : Bool) :
    Except PrismError (List TxOutputSpec) := do
  let specs ← outputs.mapM outputSpecFromFanoutOutput
  pure (if includeAnchor then specs ++ [p2aAnchorOutputSpec] else specs)

/-- The one shape of both fanout transactions: the unsigned one has no witness stack. -/
def fanoutTxHex (parentTxidHex : String) (parentVout : U32) (outputs : List CtvFanoutOutput)
    (includeAnchor : Bool) (lockTime sequence : U32) (witnessStack : List (List UInt8))
    (withWitness : Bool) : Except PrismError String := do
  let prevTxidHex ← normalizeTxidHex parentTxidHex "fanout parent txid"
  let specs ← fanoutOutputSpecs outputs includeAnchor
  serializeTxHex (.wrapping ctvFanoutTxVersion)
    [{ prevTxidHex, prevVout := parentVout, scriptSig := [], sequence, witnessStack }]
    specs lockTime withWitness

def unsignedFanoutTxHex (parentTxidHex : String) (parentVout : U32) (outputs : List CtvFanoutOutput)
    (includeAnchor : Bool) (lockTime sequence : U32) : Except PrismError String :=
  fanoutTxHex parentTxidHex parentVout outputs includeAnchor lockTime sequence [] false

def witnessedFanoutTxHex (parentTxidHex : String) (parentVout : U32) (outputs : List CtvFanoutOutput)
    (includeAnchor : Bool) (lockTime sequence : U32) (leafScript : List UInt8) :
    Except PrismError String :=
  fanoutTxHex parentTxidHex parentVout outputs includeAnchor lockTime sequence
    [leafScript, p2mrControlBlock] true

def defaultCtvHashHex (txHex : String) (inputIndex : ℕ) : Except PrismError String := do
  let tx ← parseTransactionHex txHex "tx_hex"
  let hash ← defaultCtvHashForParsedTx ctx.toCrypto tx inputIndex
  pure (Hex.encode hash.toList)

def ctvLeafScriptHex (ctvHashHex : String) : Except PrismError String := do
  let ctvHash ← decodeHashHex ctvHashHex "ctv_hash_hex"
  pure (Hex.encode (ctvLeafScript ctvHash))

def p2mrProgramForCtvLeafHex (leafScriptHex : String) : Except PrismError String := do
  let leafScript ← (Hex.decode leafScriptHex).mapError fun err =>
    invalidCtvManifest s!"invalid ctv_leaf_script_hex: {err.text}"
  pure (Hex.encode (p2mrTapleafHash ctx.toCrypto leafScript).toList)

def checkFanoutInput (input : CtvFanoutPrecommitmentInput) (artifact : String) :
    Except PrismError Unit := do
  ctvRequire (input.blockHeight.val ≤ 0xffffffff) "block height must fit fanout lock_time"
  ctvRequire (input.settlementMode ≠ .directCoinbase)
    s!"direct_coinbase mode cannot include a CTV fanout {artifact}"
  validateChunkIdentity input.chunkIndex input.chunkCount
  validateSha256Hex input.rewardManifestSha256Hex "reward_manifest_sha256_hex"
  validateSha256Hex input.payoutPolicyManifestSha256Hex "payout_policy_manifest_sha256_hex"

def prepareCtvFanoutPrecommitment (input : CtvFanoutPrecommitmentInput) :
    Except PrismError PreparedCtvFanout := do
  checkFanoutInput input "precommitment"
  let outputs ← canonicalFanoutOutputs input.payouts
  let fanoutOutputSumSats ← fanoutOutputSum outputs
  let fanoutFeeSats ← fanoutFeeSum outputs
  let covenantOutputValueSats ← addSats fanoutOutputSumSats fanoutFeeSats
    "fanout covenant value overflowed"
  let sequence ← expectedFanoutSequence input.chunkIndex
  let lockTime : U32 := .wrapping input.blockHeight.val
  let fanoutTxTemplateHex ← unsignedFanoutTxHex (Hex.encode (List.replicate 32 0)) 0 outputs
    (fanoutHasCpfpAnchor fanoutFeeSats) lockTime sequence
  let ctvHashHex ← defaultCtvHashHex ctx fanoutTxTemplateHex 0
  let leafScriptHex ← ctvLeafScriptHex ctvHashHex
  let programHex ← p2mrProgramForCtvLeafHex ctx leafScriptHex
  let program ← decodeProgramHex programHex "p2mr_program_hex"
  let anchorVout ← anchorVoutForFee outputs.length fanoutFeeSats
  let precommitment : CtvFanoutPrecommitment := {
    schema := ctvFanoutPrecommitmentSchema
    blockHeight := input.blockHeight
    chunkIndex := input.chunkIndex
    chunkCount := input.chunkCount
    coinbaseValueSats := input.coinbaseValueSats
    settlementMode := input.settlementMode
    covenantOutputValueSats
    covenantScriptPubkeyHex := Hex.encode (p2mrScriptPubkey program).toList
    fanoutTxTemplateHex
    fanoutInputIndex := 0
    fanoutSequence := sequence
    fanoutLockTime := lockTime
    fanoutOutputSumSats
    fanoutFeeSats
    anchorVout
    ctvHashHex
    ctvLeafScriptHex := leafScriptHex
    p2mrProgramHex := programHex
    p2mrControlBlockHex := Hex.encode p2mrControlBlock
    rewardManifestSha256Hex := input.rewardManifestSha256Hex.toLower
    payoutPolicyManifestSha256Hex := input.payoutPolicyManifestSha256Hex.toLower
    outputs }
  verifyPrecommitment precommitment
  let precommitmentSha256Hex := ctx.sha256Hex (ctx.precommitmentBytes precommitment)
  let leaf ← commitmentWitnessLeafHex ctx.toCrypto precommitmentSha256Hex
  pure {
    precommitment
    precommitmentSha256Hex
    commitmentWitnessLeafHex := leaf
    covenantRecipientId := s!"ctv-fanout-{input.chunkIndex.val}"
    covenantOrderKey := "ctv-fanout-" ++ padded input.chunkIndex.val
    covenantP2mrProgramHex := programHex
    covenantOutputValueSats }

/-- The manifest of a fanout whose parent coinbase is known, and its checks. -/
def buildCtvFanoutManifest (input : CtvFanoutManifestInput) : Except PrismError CtvFanoutManifest := do
  checkFanoutInput input.toCtvFanoutPrecommitmentInput "manifest"
  let parent ← parseTransactionHex input.parentCoinbaseTxHex "parent_coinbase_tx_hex"
  ensureCoinbaseShape parent
  let template ← parseTransactionHex input.fanoutTxTemplateHex "fanout_tx_template_hex"
  let fanout ← parseTransactionHex input.fanoutTxHex "fanout_tx_hex"
  validateFanoutTemplate template
  let covenantOutput ← okOr parent.outputs[input.parentCoinbaseVout.val]?
    (invalidCtvManifest "parent coinbase vout is out of range")
  let ctvHash ← defaultCtvHashForParsedTx ctx.toCrypto template 0
  let finalCtvHash ← defaultCtvHashForParsedTx ctx.toCrypto fanout 0
  ctvRequire (finalCtvHash = ctvHash) "fanout transaction does not match committed CTV template"
  let leafScript := ctvLeafScript ctvHash
  let program := p2mrTapleafHash ctx.toCrypto leafScript
  let covenantScriptPubkeyHex := Hex.encode (p2mrScriptPubkey program).toList
  let fanoutInput ← okOr fanout.inputs.head? (invalidCtvManifest "fanout transaction must have input 0")
  let sequence ← expectedFanoutSequence input.chunkIndex
  ctvRequire (fanoutInput.sequence = sequence) "fanout sequence must equal the chunk index"
  let outputs ← canonicalFanoutOutputs input.payouts
  let fanoutOutputSumSats ← fanoutOutputSum outputs
  let fanoutFeeSats ← fanoutFeeSum outputs
  let anchorVout ← anchorVoutForFee outputs.length fanoutFeeSats
  let fanoutTxTemplateHex ← normalizeHex input.fanoutTxTemplateHex
  let precommitment : CtvFanoutPrecommitment := {
    schema := ctvFanoutPrecommitmentSchema
    blockHeight := input.blockHeight
    chunkIndex := input.chunkIndex
    chunkCount := input.chunkCount
    coinbaseValueSats := input.coinbaseValueSats
    settlementMode := input.settlementMode
    covenantOutputValueSats := covenantOutput.amountSats
    covenantScriptPubkeyHex
    fanoutTxTemplateHex
    fanoutInputIndex := 0
    fanoutSequence := fanoutInput.sequence
    fanoutLockTime := fanout.lockTime
    fanoutOutputSumSats
    fanoutFeeSats
    anchorVout
    ctvHashHex := Hex.encode ctvHash.toList
    ctvLeafScriptHex := Hex.encode leafScript
    p2mrProgramHex := Hex.encode program.toList
    p2mrControlBlockHex := Hex.encode p2mrControlBlock
    rewardManifestSha256Hex := input.rewardManifestSha256Hex.toLower
    payoutPolicyManifestSha256Hex := input.payoutPolicyManifestSha256Hex.toLower
    outputs }
  let precommitmentSha256Hex := ctx.sha256Hex (ctx.precommitmentBytes precommitment)
  let leaf ← commitmentWitnessLeafHex ctx.toCrypto precommitmentSha256Hex
  let parentCoinbaseTxHex ← normalizeHex input.parentCoinbaseTxHex
  let fanoutTxHex ← normalizeHex input.fanoutTxHex
  let manifest : CtvFanoutManifest := {
    schema := ctvFanoutManifestSchema
    precommitment
    precommitmentSha256Hex
    commitmentWitnessLeafHex := leaf
    parentCoinbaseTxid := parent.txidHex ctx.toCrypto
    parentCoinbaseTxHex
    parentCoinbaseVout := input.parentCoinbaseVout
    covenantOutputValueSats := covenantOutput.amountSats
    covenantScriptPubkeyHex
    fanoutTxHex
    fanoutTxid := fanout.txidHex ctx.toCrypto }
  verifyCtvFanoutManifestStructure ctx manifest
  pure manifest

def CtvFanoutOutput.payout (output : CtvFanoutOutput) : CtvFanoutPayout :=
  { output.toPayoutIdentity with
    grossAmountSats := output.grossAmountSats
    feeSats := output.feeSats
    amountSats := output.amountSats }

def buildCtvFanoutManifestFromPrecommitment (precommitment : CtvFanoutPrecommitment)
    (parentCoinbaseTxHex : String) (parentCoinbaseVout : U32) : Except PrismError CtvFanoutManifest := do
  verifyPrecommitment precommitment
  let parent ← parseTransactionHex parentCoinbaseTxHex "parent_coinbase_tx_hex"
  ensureCoinbaseShape parent
  let leafScript ← decodeFieldHex precommitment.ctvLeafScriptHex "ctv_leaf_script_hex"
  let fanoutTxHex ← witnessedFanoutTxHex (parent.txidHex ctx.toCrypto) parentCoinbaseVout
    precommitment.outputs precommitment.anchorVout.isSome precommitment.fanoutLockTime
    precommitment.fanoutSequence leafScript
  buildCtvFanoutManifest ctx {
    blockHeight := precommitment.blockHeight
    chunkIndex := precommitment.chunkIndex
    chunkCount := precommitment.chunkCount
    coinbaseValueSats := precommitment.coinbaseValueSats
    settlementMode := precommitment.settlementMode
    fanoutTxTemplateHex := precommitment.fanoutTxTemplateHex
    parentCoinbaseTxHex
    parentCoinbaseVout
    fanoutTxHex
    rewardManifestSha256Hex := precommitment.rewardManifestSha256Hex
    payoutPolicyManifestSha256Hex := precommitment.payoutPolicyManifestSha256Hex
    payouts := precommitment.outputs.map (·.payout) }

def sumManifests (amount : CtvFanoutManifest → U64) (manifests : List CtvFanoutManifest)
    (reason : String) : Except PrismError U64 :=
  okOr (Unsigned.checkedSum (manifests.map amount)) (invalidCtvManifest reason)

def buildCtvFanoutManifestSet (manifests : List CtvFanoutManifest) :
    Except PrismError CtvFanoutManifestSet := do
  let ordered := sortBy (compareOn (·.precommitment.chunkIndex.val)) manifests
  let first ← okOr ordered.head? (invalidCtvManifest "fanout manifest set is empty")
  let fanoutOutputSumSats ← sumManifests (·.precommitment.fanoutOutputSumSats) ordered
    "fanout set output sum overflowed"
  let fanoutFeeSats ← sumManifests (·.precommitment.fanoutFeeSats) ordered
    "fanout set fee sum overflowed"
  let covenantOutputValueSats ← sumManifests (·.covenantOutputValueSats) ordered
    "fanout set covenant value overflowed"
  let fanoutCount ← okOr (Unsigned.ofNat? ordered.length)
    (invalidCtvManifest "fanout manifest count exceeds uint32")
  let set : CtvFanoutManifestSet := {
    schema := ctvFanoutManifestSetSchema
    blockHeight := first.precommitment.blockHeight
    coinbaseValueSats := first.precommitment.coinbaseValueSats
    settlementMode := first.precommitment.settlementMode
    rewardManifestSha256Hex := first.precommitment.rewardManifestSha256Hex
    payoutPolicyManifestSha256Hex := first.precommitment.payoutPolicyManifestSha256Hex
    parentCoinbaseTxid := first.parentCoinbaseTxid
    fanoutCount
    fanoutOutputSumSats
    fanoutFeeSats
    covenantOutputValueSats
    manifests := ordered }
  verifyCtvFanoutManifestSet ctx set
  pure set

end QbitPrism
