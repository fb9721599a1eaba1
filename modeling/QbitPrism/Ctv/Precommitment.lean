import Mathlib
import QbitPrism.Tx.Codec
import QbitPrism.Tx.Hash

/-!
# The fanout precommitment

What a fanout transaction will pay, fixed before the block is mined (`ctv.rs`), and the
checks a verifier makes of it alone.
-/
namespace QbitPrism
open MachineInt Checked ByteReader

inductive SettlementMode where
  | directCoinbase
  | hybridCoinbaseCtvFanout
  | ctvFanout
  deriving DecidableEq

structure CtvFanoutOutput extends PayoutIdentity where
  vout : U32
  scriptPubkeyHex : String
  grossAmountSats : U64
  feeSats : U64
  amountSats : U64
  deriving DecidableEq

structure CtvFanoutPrecommitment where
  schema : String
  blockHeight : U64
  chunkIndex : U32
  chunkCount : U32
  coinbaseValueSats : U64
  settlementMode : SettlementMode
  covenantOutputValueSats : U64
  covenantScriptPubkeyHex : String
  fanoutTxTemplateHex : String
  fanoutInputIndex : U32
  fanoutSequence : U32
  fanoutLockTime : U32
  fanoutOutputSumSats : U64
  fanoutFeeSats : U64
  anchorVout : Option U32
  ctvHashHex : String
  ctvLeafScriptHex : String
  p2mrProgramHex : String
  p2mrControlBlockHex : String
  rewardManifestSha256Hex : String
  payoutPolicyManifestSha256Hex : String
  outputs : List CtvFanoutOutput
  deriving DecidableEq

/-- A condition of the manifest, with the reason given when it fails. -/
def ctvRequire (c : Prop) [Decidable c] (reason : String) : Except PrismError Unit :=
  require c (invalidCtvManifest reason)

@[simp] theorem ctvRequire_eq_ok {c : Prop} [Decidable c] {reason : String} {u : Unit} :
    ctvRequire c reason = .ok u ↔ c := require_eq_ok

def decodeFieldHex (value fieldName : String) : Except PrismError (List UInt8) :=
  (Hex.decode value).mapError fun err => invalidCtvManifest s!"{fieldName} must be hex: {err.text}"

/-- `decode_hash_hex` and `decode_program_hex`: both take 32 bytes. -/
def decodeHashHex (value fieldName : String) : Except PrismError (Bytes 32) := do
  let bytes ← decodeFieldHex value fieldName
  okOr (Bytes.ofList? 32 bytes)
    (invalidCtvManifest s!"{fieldName} must be 32 bytes, got {bytes.length}")

def decodeProgramHex (value fieldName : String) : Except PrismError (Bytes 32) :=
  decodeHashHex value fieldName

def validateCanonicalHex (value fieldName : String) : Except PrismError Unit := do
  let bytes ← decodeFieldHex value fieldName
  ctvRequire (value = Hex.encode bytes) s!"{fieldName} must be lowercase canonical hex"

def validateSha256Hex (value fieldName : String) : Except PrismError Unit := do
  let _ ← decodeHashHex value fieldName

def validateCanonicalSha256Hex (value fieldName : String) : Except PrismError Unit := do
  let hash ← decodeHashHex value fieldName
  ctvRequire (value = Hex.encode hash.toList) s!"{fieldName} must be lowercase canonical hex"

def canonicalP2mrProgramHex (value fieldName : String) : Except PrismError String := do
  let program ← decodeProgramHex value fieldName
  pure (Hex.encode program.toList)

def validateChunkIdentity (chunkIndex chunkCount : U32) : Except PrismError Unit := do
  ctvRequire (chunkCount ≠ 0) "fanout chunk_count must be positive"
  ctvRequire (chunkIndex.val < chunkCount.val) "fanout chunk_index must be less than chunk_count"

/-- The chunk index above the flag that disables relative lock times. -/
def expectedFanoutSequence (chunkIndex : U32) : Except PrismError U32 :=
  okOr (Unsigned.checkedAdd (.wrapping (2 ^ 31)) chunkIndex)
    (invalidCtvManifest "fanout sequence overflowed")

def addSats (sum amount : U64) (reason : String) : Except PrismError U64 :=
  okOr (sum.checkedAdd amount) (invalidCtvManifest reason)

@[simp] theorem addSats_eq_ok {sum amount total : U64} {reason : String} :
    addSats sum amount reason = .ok total ↔ total.val = sum.val + amount.val := by
  simp [addSats, Unsigned.checkedAdd_eq_some]

/-- `BTreeSet::insert`, failing on an element already there. -/
def insertNew {α : Type} [DecidableEq α] (seen : List α) (x : α) (reason : String) :
    Except PrismError (List α) := do
  ctvRequire (x ∉ seen) reason
  pure (x :: seen)

/-- The running totals of a pass over fanout outputs. -/
structure FanoutSums where
  outputSum : U64
  feeSum : U64

structure PrecommitmentScan extends FanoutSums where
  seen : List PayoutIdentity

def checkPrecommitmentOutput (scan : PrecommitmentScan) (x : CtvFanoutOutput × ℕ) :
    Except PrismError PrecommitmentScan := do
  let (output, index) := x
  ctvRequire (output.vout = .wrapping index) s!"fanout output {index} vout mismatch"
  ctvRequire (output.amountSats ≠ 0) s!"fanout output {index} amount must be positive"
  let canonical ← canonicalP2mrProgramHex output.p2mrProgramHex "precommitment p2mr_program_hex"
  let seen ← insertNew scan.seen { output.toPayoutIdentity with p2mrProgramHex := canonical }
    "duplicate fanout payout recipient"
  let program ← decodeProgramHex output.p2mrProgramHex "precommitment p2mr_program_hex"
  ctvRequire (output.p2mrProgramHex = Hex.encode program.toList)
    "precommitment p2mr_program_hex must be lowercase canonical hex"
  ctvRequire (Hex.encode (p2mrScriptPubkey program).toList = output.scriptPubkeyHex)
    s!"fanout output {index} scriptPubKey mismatch"
  let outputSum ← addSats scan.outputSum output.amountSats "fanout output sum overflowed"
  let feeSum ← addSats scan.feeSum output.feeSats "fanout fee sum overflowed"
  pure { outputSum, feeSum, seen }

/-- A zero-fee fanout has an anchor right after its payouts; one with a fee has none. -/
def checkAnchorVout (precommitment : CtvFanoutPrecommitment) : Except PrismError Unit :=
  match precommitment.anchorVout with
  | some anchorVout => do
    ctvRequire (precommitment.fanoutFeeSats = 0) "built-in-fee fanout must not include a CPFP anchor"
    ctvRequire (anchorVout.val = precommitment.outputs.length)
      "fee anchor vout must follow the payouts"
  | none =>
    ctvRequire (precommitment.fanoutFeeSats ≠ 0) "zero-fee fanout must include a CPFP anchor"

def ctvFanoutPrecommitmentSchema : String := "qbit.prism.ctv-fanout-precommitment.v1"

def verifyPrecommitment (precommitment : CtvFanoutPrecommitment) : Except PrismError Unit := do
  ctvRequire (precommitment.schema = ctvFanoutPrecommitmentSchema)
    "unexpected fanout precommitment schema"
  validateCanonicalHex precommitment.covenantScriptPubkeyHex
    "precommitment covenant_script_pubkey_hex"
  validateCanonicalHex precommitment.fanoutTxTemplateHex "precommitment fanout_tx_template_hex"
  validateCanonicalSha256Hex precommitment.ctvHashHex "precommitment ctv_hash_hex"
  validateCanonicalHex precommitment.ctvLeafScriptHex "precommitment ctv_leaf_script_hex"
  let program ← canonicalP2mrProgramHex precommitment.p2mrProgramHex "precommitment p2mr_program_hex"
  ctvRequire (precommitment.p2mrProgramHex = program)
    "precommitment p2mr_program_hex must be lowercase canonical hex"
  validateCanonicalHex precommitment.p2mrControlBlockHex "precommitment p2mr_control_block_hex"
  validateCanonicalSha256Hex precommitment.rewardManifestSha256Hex
    "precommitment reward_manifest_sha256_hex"
  validateCanonicalSha256Hex precommitment.payoutPolicyManifestSha256Hex
    "precommitment payout_policy_manifest_sha256_hex"
  validateChunkIdentity precommitment.chunkIndex precommitment.chunkCount
  let sequence ← expectedFanoutSequence precommitment.chunkIndex
  ctvRequire (precommitment.fanoutSequence = sequence) "fanout sequence must equal the chunk index"
  ctvRequire (precommitment.fanoutLockTime = .wrapping precommitment.blockHeight.val)
    "fanout lock_time must equal block height for unique CTV context"
  ctvRequire (precommitment.outputs ≠ []) "fanout precommitment has no outputs"
  let scan ← precommitment.outputs.zipIdx.foldlM checkPrecommitmentOutput
    { outputSum := 0, feeSum := 0, seen := [] }
  ctvRequire (scan.outputSum = precommitment.fanoutOutputSumSats) "fanout output sum mismatch"
  ctvRequire (scan.feeSum = precommitment.fanoutFeeSats) "fanout fee sum mismatch"
  let funded ← addSats scan.outputSum scan.feeSum "fanout funded value overflowed"
  ctvRequire (funded = precommitment.covenantOutputValueSats)
    "fanout payouts plus fee do not equal covenant output value"
  checkAnchorVout precommitment

theorem decodeHashHex_eq_ok {value fieldName : String} {hash : Bytes 32} :
    decodeHashHex value fieldName = .ok hash ↔ Hex.decode value = .ok hash.toList := by
  simp only [decodeHashHex, decodeFieldHex, bind_eq_ok, mapError_eq_ok, okOr_eq_ok, Bytes.ofList?_eq_some]
  constructor
  · rintro ⟨bytes, hbytes, rfl⟩
    exact hbytes
  · exact fun h => ⟨_, h, rfl⟩

end QbitPrism
