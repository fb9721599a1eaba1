import Mathlib
import QbitPrism.Lib.LargestRemainder
import QbitPrism.Payout.Allocation
import QbitPrism.Tx.Codec
import QbitPrism.Tx.Hash

/-!
# The coinbase builder

`qbit-pool-builder/src/lib.rs`: a coinbase that splits its value over weighted entitlements
in canonical order, with one entitlement pinned to the first output if asked, and whose
last output commits to the witness.
-/
namespace QbitPrism
open MachineInt Checked SortBy LargestRemainder ByteReader

/-- The entitlement that must be at output 0. -/
abbrev PinnedFirstOutput := PayoutIdentity

structure CoinbaseBuildRequest where
  blockHeight : U64
  coinbaseValueSats : U64
  entitlements : List WeightedEntitlement
  witnessNonceHex : Option String
  witnessMerkleLeavesHex : List String
  coinbaseScriptSigSuffixHex : Option String
  pinnedFirstOutput : Option PinnedFirstOutput
  deriving DecidableEq

structure PayoutOutput extends PayoutIdentity where
  vout : ℕ
  scriptPubkeyHex : String
  weight : U128
  amountSats : U64
  deriving DecidableEq

structure PayoutManifest where
  schema : String
  blockHeight : U64
  coinbaseValueSats : U64
  totalWeight : U128
  coinbaseWeightBytes : ℕ
  payoutCount : ℕ
  coinbaseTxHex : String
  coinbaseTxid : String
  coinbaseWtxid : String
  coinbaseScriptSigHex : String
  coinbaseScriptSigSuffixHex : String
  witnessNonceHex : String
  witnessCommitmentScriptHex : String
  outputs : List PayoutOutput
  deriving DecidableEq

structure ManifestSignature where
  algorithm : String
  publicKeyHex : String
  signatureHex : String
  deriving DecidableEq

structure SignedPayoutManifest where
  manifest : PayoutManifest
  signature : ManifestSignature
  deriving DecidableEq

structure OutputShare where
  recipientId : String
  orderKey : String
  p2mrProgram : Bytes 32
  weight : U128
  deriving DecidableEq

structure AllocatedOutput extends OutputShare where
  amountSats : U64
  deriving DecidableEq

def AllocatedOutput.scriptPubkey (output : AllocatedOutput) : List UInt8 :=
  (p2mrScriptPubkey output.p2mrProgram).toList

def AllocatedOutput.txOut (output : AllocatedOutput) : ParsedTxOut :=
  { amountSats := output.amountSats, scriptPubkey := output.scriptPubkey }

structure BuiltCoinbase where
  txWithWitness : List UInt8
  txWithoutWitness : List UInt8
  txid : Bytes 32
  wtxid : Bytes 32
  witnessCommitmentScript : List UInt8
  outputs : List AllocatedOutput
  totalWeight : U128
  coinbaseWeightBytes : ℕ

def pinnedMatches (pinned : PinnedFirstOutput) (entitlement : WeightedEntitlement) : Prop :=
  entitlement.recipientId = pinned.recipientId ∧ entitlement.orderKey = pinned.orderKey ∧
    eqIgnoreAsciiCase entitlement.p2mrProgramHex pinned.p2mrProgramHex

instance (pinned : PinnedFirstOutput) (entitlement : WeightedEntitlement) :
    Decidable (pinnedMatches pinned entitlement) := by
  unfold pinnedMatches
  infer_instance

def pinnedEntitlementIndex (entitlements : List WeightedEntitlement) (pinned : PinnedFirstOutput) :
    Except BuilderError ℕ :=
  match (entitlements.zipIdx.filter fun x => pinnedMatches pinned x.1).map Prod.snd with
  | [] => .error (.pinnedFirstOutputMissing pinned.recipientId)
  | [index] => .ok index
  | _ => .error (.pinnedFirstOutputAmbiguous pinned.recipientId)

/-- Canonical order, then `[..=pinned_index].rotate_right(1)`: the pinned entitlement
moves to the front and the ones before it one place back. -/
def orderEntitlements (entitlements : List WeightedEntitlement) (pinned : Option PinnedFirstOutput) :
    Except BuilderError (List WeightedEntitlement) := do
  let ordered := sortBy WeightedEntitlement.cmp entitlements
  match pinned with
  | none => pure ordered
  | some pinned => do
    let index ← pinnedEntitlementIndex ordered pinned
    pure (ordered[index]?.toList ++ ordered.eraseIdx index)

def sumWeights (entitlements : List WeightedEntitlement) : Except BuilderError U128 :=
  entitlements.foldlM (fun sum entitlement => do
    require (entitlement.weight ≠ 0) (.zeroWeight entitlement.recipientId)
    okOr (sum.checkedAdd entitlement.weight) .weightOverflow) 0

def parseP2mrProgram (entitlement : WeightedEntitlement) : Except BuilderError (Bytes 32) := do
  let program ← (Hex.decode entitlement.p2mrProgramHex).mapError fun error =>
    .invalidP2mrProgram entitlement.recipientId error.text
  okOr (Bytes.ofList? 32 program)
    (.invalidP2mrProgram entitlement.recipientId s!"expected 32 bytes, got {program.length}")

/-- One entitlement's floor share and the remainder of its quota. -/
def provisionalOutput (coinbaseValueSats : U64) (totalWeight : U128)
    (entitlement : WeightedEntitlement) : Except BuilderError (Provisional 64 OutputShare) := do
  let program ← parseP2mrProgram entitlement
  let product ← okOr ((U64.toU128 coinbaseValueSats).checkedMul entitlement.weight)
    .allocationOverflow
  let amountSats ← okOr (Unsigned.ofNat? (product.val / totalWeight.val)) .allocationOverflow
  pure {
    entry := {
      recipientId := entitlement.recipientId
      orderKey := entitlement.orderKey
      p2mrProgram := program
      weight := entitlement.weight }
    amount := amountSats
    remainder := product.val % totalWeight.val }

/-- Larger remainders first, ties by order key, recipient and program bytes. -/
def outputRemainderCmp : Provisional 64 OutputShare → Provisional 64 OutputShare → Ordering :=
  compareLex (fun a b => compare b.remainder a.remainder)
    (compareLex (compareOn (·.entry.orderKey))
      (compareLex (compareOn (·.entry.recipientId)) (compareOn (·.entry.p2mrProgram.toList))))

def requireTotal (allocated coinbaseValue : U64) : Except BuilderError Unit :=
  require (allocated = coinbaseValue) (.allocationTotalMismatch allocated coinbaseValue)

def allocateOutputs (request : CoinbaseBuildRequest) : Except BuilderError (List AllocatedOutput) := do
  require (request.coinbaseValueSats ≠ 0) .emptyCoinbaseValue
  require (request.entitlements ≠ []) .emptyEntitlements
  let entitlements ← orderEntitlements request.entitlements request.pinnedFirstOutput
  let totalWeight ← sumWeights entitlements
  let provisional ← entitlements.mapM (provisionalOutput request.coinbaseValueSats totalWeight)
  let allocated ← okOr (Unsigned.checkedSum (provisional.map (·.amount))) .allocationOverflow
  let remainderSats ← okOr (request.coinbaseValueSats.checkedSub allocated) .allocationOverflow
  let bumped ← okOr (bumpAll provisional
    ((remainderOrder (Le outputRemainderCmp) provisional).take remainderSats.val)) .allocationOverflow
  let outputs := bumped.map fun p => { p.entry with amountSats := p.amount : AllocatedOutput }
  let finalTotal ← okOr (Unsigned.checkedSum (outputs.map (·.amountSats))) .allocationOverflow
  requireTotal finalTotal request.coinbaseValueSats
  pure outputs

def decodeHash (raw recipientId : String) : Except BuilderError (Bytes 32) := do
  let decoded ← (Hex.decode raw).mapError .hex
  okOr (Bytes.ofList? 32 decoded)
    (.invalidP2mrProgram recipientId s!"expected 32 bytes, got {decoded.length}")

def zeroHash : Bytes 32 := List.Vector.replicate 32 0

def witnessNonce (request : CoinbaseBuildRequest) : Except BuilderError (Bytes 32) :=
  match request.witnessNonceHex with
  | some raw => decodeHash raw "witness_nonce"
  | none => .ok zeroHash

def witnessLeaves (request : CoinbaseBuildRequest) : Except BuilderError (List (Bytes 32)) :=
  request.witnessMerkleLeavesHex.zipIdx.mapM fun x =>
    decodeHash x.1 s!"witness_merkle_leaf[{x.2}]"

/-- `OP_RETURN`, a push of 36 bytes, the commitment header and the commitment. -/
def witnessCommitmentScript (crypto : Crypto) (extraWitnessLeaves : List (Bytes 32))
    (witnessNonce : Bytes 32) : List UInt8 :=
  let witnessRoot := crypto.merkleRoot zeroHash extraWitnessLeaves
  [0x6a, 36] ++ ([0xaa, 0x21, 0xa9, 0xed] ++ (crypto.hash256Pair witnessRoot witnessNonce).toList)

/-- The bytes of a magnitude, least significant first; a `u64` has at most eight. -/
def magnitudeBytes : ℕ → ℕ → List UInt8
  | 0, _ => []
  | fuel + 1, value =>
    if value = 0 then [] else UInt8.ofNat (value % 256) :: magnitudeBytes fuel (value / 256)

def minimalScriptNum (value : ℤ) : List UInt8 :=
  if value = 0 then []
  else
    let result := magnitudeBytes 8 value.natAbs
    match result.getLast? with
    | none => result
    | some last =>
      if last &&& 0x80 ≠ 0 then result ++ [if value < 0 then 0x80 else 0]
      else if value < 0 then result.dropLast ++ [last ||| 0x80]
      else result

def compactPush (len : ℕ) : List UInt8 :=
  if len ≤ 75 then [UInt8.ofNat len]
  else if len ≤ 0xff then [76, UInt8.ofNat len]
  else if len ≤ 0xffff then 77 :: leBytes 2 len
  else 78 :: leBytes 4 len

def coinbaseHeightScript (height : U64) : Except BuilderError (List UInt8) := do
  require (height.val ≤ 0xffffffff) .heightOverflow
  if height.val ≤ 16 then pure [0x50 + UInt8.ofNat height.val, 0]
  else
    let encoded := minimalScriptNum height.val
    pure (compactPush encoded.length ++ encoded)

def coinbaseScriptSigSuffix (request : CoinbaseBuildRequest) : Except BuilderError (List UInt8) :=
  match request.coinbaseScriptSigSuffixHex with
  | some raw => (Hex.decode raw).mapError .hex
  | none => .ok []

def maxCoinbaseScriptSigLen : ℕ := 100

def coinbaseScriptSig (request : CoinbaseBuildRequest) : Except BuilderError (List UInt8) := do
  let height ← coinbaseHeightScript request.blockHeight
  let suffix ← coinbaseScriptSigSuffix request
  let script := height ++ suffix
  require (script.length ≤ maxCoinbaseScriptSigLen) (.coinbaseScriptSigTooLong script.length)
  pure script

def coinbaseLockTime (height : U64) : Except BuilderError U32 := do
  require (height.val ≠ 0 ∧ height.val ≤ 0xffffffff) .heightOverflow
  pure (.wrapping (height.val - 1))

def serializeCoinbaseInput (request : CoinbaseBuildRequest) : Except BuilderError (List UInt8) := do
  let scriptSig ← coinbaseScriptSig request
  pure (compactSize 1 ++ (List.replicate 32 0 ++ (leBytes 4 0xffffffff ++
    (compactSize scriptSig.length ++ (scriptSig ++ leBytes 4 0xfffffffe)))))

def serializeOutputs (outputs : List AllocatedOutput) (witnessCommitmentScript : List UInt8) :
    List UInt8 :=
  compactSize (outputs.length + 1) ++
    ((outputs.flatMap fun output => leBytes 8 output.amountSats.val ++
        (compactSize output.scriptPubkey.length ++ output.scriptPubkey)) ++
      (leBytes 8 0 ++ (compactSize witnessCommitmentScript.length ++ witnessCommitmentScript)))

def serializeWitness (witnessNonce : Bytes 32) : List UInt8 :=
  compactSize 1 ++ (compactSize witnessNonce.toList.length ++ witnessNonce.toList)

def maxBlockWeight : ℕ := 2000000

def buildCoinbase (crypto : Crypto) (request : CoinbaseBuildRequest) :
    Except BuilderError BuiltCoinbase := do
  let outputs ← allocateOutputs request
  let nonce ← witnessNonce request
  let leaves ← witnessLeaves request
  let commitmentScript := witnessCommitmentScript crypto leaves nonce
  let input ← serializeCoinbaseInput request
  let lockTime ← coinbaseLockTime request.blockHeight
  let txWithoutWitness := leBytes 4 2 ++ (input ++
    (serializeOutputs outputs commitmentScript ++ leBytes 4 lockTime.val))
  let txWithWitness := leBytes 4 2 ++ ([0, 1] ++ (input ++
    (serializeOutputs outputs commitmentScript ++ (serializeWitness nonce ++
      leBytes 4 lockTime.val))))
  require (txWithWitness.length ≤ maxBlockWeight)
    (.coinbaseWeightTooHigh txWithWitness.length maxBlockWeight)
  let allocated ← okOr (Unsigned.checkedSum (outputs.map (·.amountSats))) .allocationOverflow
  requireTotal allocated request.coinbaseValueSats
  let totalWeight ← okOr (Unsigned.checkedSum (outputs.map (·.weight))) .weightOverflow
  pure {
    txWithWitness
    txWithoutWitness
    txid := crypto.hash256 txWithoutWitness
    wtxid := crypto.hash256 txWithWitness
    witnessCommitmentScript := commitmentScript
    outputs
    totalWeight
    coinbaseWeightBytes := txWithWitness.length }

def payoutOutput (output : AllocatedOutput) (index : ℕ) : PayoutOutput :=
  { recipientId := output.recipientId
    orderKey := output.orderKey
    p2mrProgramHex := Hex.encode output.p2mrProgram.toList
    vout := index
    scriptPubkeyHex := Hex.encode output.scriptPubkey
    weight := output.weight
    amountSats := output.amountSats }

def buildManifest (crypto : Crypto) (request : CoinbaseBuildRequest) :
    Except BuilderError PayoutManifest := do
  let built ← buildCoinbase crypto request
  let scriptSig ← coinbaseScriptSig request
  let scriptSigSuffix ← coinbaseScriptSigSuffix request
  let outputs := built.outputs.zipIdx.map fun x => payoutOutput x.1 x.2
  let nonce ← witnessNonce request
  pure {
    schema := "qbit.prism.coinbase-manifest.v1"
    blockHeight := request.blockHeight
    coinbaseValueSats := request.coinbaseValueSats
    totalWeight := built.totalWeight
    coinbaseWeightBytes := built.coinbaseWeightBytes
    payoutCount := outputs.length
    coinbaseTxHex := Hex.encode built.txWithWitness
    coinbaseTxid := displayHashHex built.txid
    coinbaseWtxid := displayHashHex built.wtxid
    coinbaseScriptSigHex := Hex.encode scriptSig
    coinbaseScriptSigSuffixHex := Hex.encode scriptSigSuffix
    witnessNonceHex := Hex.encode nonce.toList
    witnessCommitmentScriptHex := Hex.encode built.witnessCommitmentScript
    outputs }

/-- `manifestBytes` is the canonical JSON of a manifest. -/
def verifySignedManifest (crypto : Crypto) (manifestBytes : PayoutManifest → List UInt8)
    (signed : SignedPayoutManifest) : Except BuilderError Unit := do
  require (signed.signature.algorithm = "ed25519") .signatureVerificationFailed
  crypto.verifyEd25519Message signed.signature.publicKeyHex (manifestBytes signed.manifest)
    signed.signature.signatureHex

end QbitPrism
