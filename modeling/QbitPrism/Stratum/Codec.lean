import Mathlib
import QbitPrism.Coinbase.Builder
import QbitPrism.Stratum.Merkle

/-!
# Stratum work

`codec.rs`: a job cuts the coinbase of a manifest where the miner's bytes go, a submission puts
them in and builds the header and the block, and a block's transactions are read back from its
bytes.
-/
namespace QbitPrism
open MachineInt Checked ByteReader

/-- A JSON value; numbers that are not integers are not told apart. -/
inductive JsonValue where
  | null
  | bool (b : Bool)
  | integer (n : ℤ)
  | float
  | string (s : String)
  | array (items : List JsonValue)
  | object (fields : List (String × JsonValue))

namespace JsonValue

def get (value : JsonValue) (key : String) : Option JsonValue :=
  match value with
  | object fields => fields.lookup key
  | _ => none

/-- `value[key]`, where what is missing is null. -/
def index (value : JsonValue) (key : String) : JsonValue := (value.get key).getD null

def asStr : JsonValue → Option String
  | string s => some s
  | _ => none

def asArray : JsonValue → Option (List JsonValue)
  | array items => some items
  | _ => none

def asI64 : JsonValue → Option ℤ
  | integer n => if -2 ^ 63 ≤ n ∧ n < 2 ^ 63 then some n else none
  | _ => none

def asU64 : JsonValue → Option ℕ
  | integer n => if 0 ≤ n ∧ n < 2 ^ 64 then some n.toNat else none
  | _ => none

end JsonValue

def decodeHex (text : String) : Except String (List UInt8) :=
  (Hex.decode text).mapError Hex.FromHexError.text

/-- `try_into` a `u32`. -/
def tryU32 (n : ℕ) : Except String U32 :=
  okOr (Unsigned.ofNat? n) "out of range integral type conversion attempted"

/-- The number that hexadecimal digits write, or the error when one is not a digit. -/
def hexNumber (digits : List UInt8) (error : String) : Except String ℕ := do
  let values ← digits.mapM fun digit => (Hex.val digit 0).mapError fun _ => error
  pure (values.foldl (fun number value => 16 * number + value) 0)

def parseU32Hex (value : String) : Except String U32 := do
  require ((Hex.utf8 value).length = 8) "expected a 4-byte hex string"
  let number ← hexNumber (Hex.utf8 value) "expected a 4-byte hex string"
  tryU32 number

def versionRollingMask : U32 := 0x1fffe000

def versionMaskFromTemplate (template : JsonValue) (fallback : U32) : Except String U32 :=
  match template.get "versionrollingmask" with
  | none => pure fallback
  | some (.integer n) => do
    let n ← okOr (JsonValue.integer n).asU64 "invalid versionrollingmask"
    tryU32 n
  | some (.string s) => do
    let digits := if [0x30, 0x78].isPrefixOf (Hex.utf8 s) then (Hex.utf8 s).drop 2 else Hex.utf8 s
    require (digits ≠ [] ∧ digits.length ≤ 8) "invalid versionrollingmask"
    let number ← hexNumber digits "invalid versionrollingmask"
    tryU32 number
  | _ => throw "invalid versionrollingmask"

def transactionsFromTemplate (template : JsonValue) : Except String (List (List UInt8)) := do
  let transactions ← match template.get "transactions" with
    | none => pure []
    | some value => okOr value.asArray "template transactions must be an array"
  transactions.mapM fun t => do
    let data ← okOr (t.index "data").asStr "transaction data missing"
    decodeHex data

def witnessMerkleLeavesHex (crypto : Crypto) (transactions : List (List UInt8)) : List String :=
  transactions.map fun tx => Hex.encode (crypto.hash256 tx).toList

structure F64 where
  bits : U64

namespace F64

def rawExponent (x : F64) : ℕ := x.bits.val / 2 ^ 52 % 2 ^ 11

def IsFinite (x : F64) : Prop := x.rawExponent ≠ 2047

/-- `x > 0.0`: the sign is clear and `x` is neither zero nor NaN. -/
def Positive (x : F64) : Prop := 0 < x.bits.val ∧ x.bits.val ≤ 2047 * 2 ^ 52

/-- `x >= 0.0`, of which negative zero is one. -/
def NonNegative (x : F64) : Prop := x.bits.val ≤ 2047 * 2 ^ 52 ∨ x.bits.val = 2 ^ 63

instance (x : F64) : Decidable x.IsFinite := inferInstanceAs (Decidable (_ ≠ _))
instance (x : F64) : Decidable x.Positive := inferInstanceAs (Decidable (_ ∧ _))
instance (x : F64) : Decidable x.NonNegative := inferInstanceAs (Decidable (_ ∨ _))

end F64

def targetFromCompact (bits : U32) : Except String ℕ := do
  let size := bits.val / 2 ^ 24
  let mantissa := bits.val % 2 ^ 23
  require (bits.val / 2 ^ 23 % 2 = 0 ∧ mantissa ≠ 0) "negative or zero compact target"
  require (size ≤ 34) "compact target overflow"
  let value := if size ≤ 3 then mantissa / 2 ^ (8 * (3 - size)) else mantissa * 2 ^ (8 * (size - 3))
  require (value ≠ 0 ∧ value < 2 ^ 256) "compact target out of range"
  pure value

/-- The target of difficulty 1 divided by the binary rational the bits stand for. -/
def difficultyTarget (difficulty : F64) : Except String ℕ := do
  require (difficulty.IsFinite ∧ difficulty.Positive) "difficulty must be positive and finite"
  let raw := difficulty.rawExponent
  let mantissa := difficulty.bits.val % 2 ^ 52 + if raw = 0 then 0 else 2 ^ 52
  let exponent : ℤ := if raw = 0 then -1074 else raw - 1023 - 52
  let one ← targetFromCompact 0x1d00ffff
  let numerator := if exponent < 0 then one * 2 ^ exponent.natAbs else one
  let denominator := if exponent < 0 then mantissa else mantissa * 2 ^ exponent.toNat
  pure (min (max (numerator / denominator) 1) (2 ^ 256 - 1))

/-- The target of assigned work: the network's at least, and the floor's at most. -/
def assignedTarget (networkTarget : ℕ) (difficulty minimumDifficulty : F64) : Except String ℕ := do
  let target ← difficultyTarget difficulty
  if minimumDifficulty.Positive then do
    let floor ← difficultyTarget minimumDifficulty
    pure (min (max target networkTarget) floor)
  else pure (max target networkTarget)

def skipMarker (tx : List UInt8) : Cursor Unit :=
  if tx[4]? = some 0 ∧ tx[5]? ≠ some 0 then do
    let _ ← Cursor.take tx 2
    pure ()
  else pure ()

open Cursor in
def scriptEnd (tx placeholder : List UInt8) : Cursor Unit := do
  skipMarker tx
  let inputs ← count tx
  ensure (inputs = 1) "coinbase must have exactly one input"
  let prevout ← take tx 36
  ensure (prevout.take 32 = List.replicate 32 0 ∧ prevout.drop 32 = List.replicate 4 255)
    "coinbase has non-null prevout"
  let n ← count tx
  let script ← take tx n
  ensure (placeholder <:+ script) "coinbase scriptSig does not end with extranonce placeholder"

def splitCoinbaseExtranonce (tx placeholder : List UInt8) :
    Except String (List UInt8 × List UInt8) := do
  require (10 ≤ tx.length ∧ placeholder ≠ []) "invalid coinbase or extranonce placeholder"
  let (_, offset) ← scriptEnd tx placeholder 4
  pure (tx.take (offset - placeholder.length), tx.drop offset)

structure Job where
  jobId : String
  previousblockhash : String
  prevhash : String
  coinb1 : String
  coinb2 : String
  fullCoinbasePrefix : String
  fullCoinbaseSuffix : String
  merkleBranch : List (Bytes 32)
  transactions : List (List UInt8)
  version : U32
  versionMask : U32
  nbits : U32
  ntime : U32
  mintime : U32
  networkTarget : ℕ
  shareTarget : ℕ
  extranonce1 : String
  extranonce2Size : ℕ
  cleanJobs : Bool

def reverseWords : List UInt8 → List UInt8
  | a :: b :: c :: d :: rest => d :: c :: b :: a :: reverseWords rest
  | rest => rest

def Job.fromManifest (crypto : Crypto) (jobId : String) (template : JsonValue) (manifest : PayoutManifest)
    (extranonce1 : String) (extranonce2Size : ℕ) (desiredDifficulty minimumDifficulty : F64)
    (cleanJobs : Bool) : Except String Job := do
  require (0 < extranonce2Size ∧ extranonce2Size ≤ 32) "invalid extranonce2 size"
  require (minimumDifficulty.IsFinite ∧ minimumDifficulty.NonNegative) "invalid difficulty floor"
  let coinbase ← decodeHex manifest.coinbaseTxHex
  let stripped ← stripWitnessTransaction coinbase
  require (eqIgnoreAsciiCase (displayHashHex (crypto.hash256 stripped)) manifest.coinbaseTxid)
    "manifest coinbase txid mismatch"
  let entropy ← decodeHex extranonce1
  let placeholder := entropy ++ List.replicate extranonce2Size 0
  let (coinb1, coinb2) ← splitCoinbaseExtranonce stripped placeholder
  let (fullPrefix, fullSuffix) ← splitCoinbaseExtranonce coinbase placeholder
  let transactions ← transactionsFromTemplate template
  let merkleBranch ← merkleBranchForCoinbase crypto transactions
  let previous ← okOr (template.index "previousblockhash").asStr "template previousblockhash missing"
  let previousblockhash := previous.toLower
  let prevhashBytes ← decodeHex previousblockhash
  require (prevhashBytes.length = 32) "previousblockhash must be 32 bytes"
  let bits ← okOr (template.index "bits").asStr "template bits missing"
  let nbits ← parseU32Hex bits
  let networkTarget ← targetFromCompact nbits
  let shareTarget ← assignedTarget networkTarget desiredDifficulty minimumDifficulty
  let version ← okOr (template.index "version").asI64 "template version missing"
  let curtime ← okOr (template.index "curtime").asU64 "template curtime missing"
  let ntime ← tryU32 curtime
  let mintime ← tryU32 (((template.get "mintime").bind JsonValue.asU64).getD 0)
  let versionMask ← versionMaskFromTemplate template versionRollingMask
  -- `target_difficulty` of the assigned target
  require (shareTarget ≠ 0) "target must be positive"
  pure {
    jobId
    previousblockhash
    prevhash := Hex.encode (reverseWords prevhashBytes.reverse)
    coinb1 := Hex.encode coinb1
    coinb2 := Hex.encode coinb2
    fullCoinbasePrefix := Hex.encode fullPrefix
    fullCoinbaseSuffix := Hex.encode fullSuffix
    merkleBranch
    transactions
    version := .wrapping (version % 2 ^ 32).toNat
    versionMask
    nbits
    ntime
    mintime
    networkTarget
    shareTarget
    extranonce1
    extranonce2Size
    cleanJobs }

def Job.reassign (job : Job) (jobId extranonce1 : String) (difficulty minimumDifficulty : F64) :
    Except String Job := do
  require ((Hex.utf8 extranonce1).length = (Hex.utf8 job.extranonce1).length) "unexpected extranonce1 size"
  let _ ← (Hex.decode extranonce1).mapError fun _ => "invalid extranonce1"
  require (minimumDifficulty.IsFinite ∧ minimumDifficulty.NonNegative) "invalid difficulty floor"
  let shareTarget ← assignedTarget job.networkTarget difficulty minimumDifficulty
  require (shareTarget ≠ 0) "target must be positive"
  pure { job with jobId, extranonce1, shareTarget }

structure Submission where
  coinbaseTxHex : String
  headerHex : String
  blockHex : String
  blockHashHex : String
  sharePass : Bool
  blockPass : Bool
  extranonce2Hex : String
  ntime : U32
  nonce : U32
  appliedVersion : U32

def outsideMask (mask : U32) : ℕ := 0xffffffff ^^^ mask.val

def Job.appliedVersion (job : Job) (versionBits : Option String) (versionMask : U32) :
    Except String U32 :=
  match versionBits with
  | none => pure job.version
  | some value => do
    let bits ← parseU32Hex value
    require (bits.val &&& outsideMask versionMask = 0)
      "version_bits include bits outside negotiated mask"
    pure (.wrapping (job.version.val &&& outsideMask versionMask ||| bits.val))

def Job.blockBytes (job : Job) (header coinbase : List UInt8) : List UInt8 :=
  header ++ (compactSize (1 + job.transactions.length) ++ (coinbase ++ job.transactions.flatten))

/-- The result for a header and its coinbase; the block is only put together when it passes. -/
def Job.submission (crypto : Crypto) (job : Job) (header coinbase : List UInt8) (extranonce2 : String)
    (ntime nonce appliedVersion : U32) : Submission :=
  let hash := crypto.hash256 header
  let hashInt := ofLeBytes hash.toList
  let blockPass := decide (hashInt ≤ job.networkTarget)
  { coinbaseTxHex := Hex.encode coinbase
    headerHex := Hex.encode header
    blockHex := Hex.encode (if blockPass then job.blockBytes header coinbase else [])
    blockHashHex := displayHashHex hash
    sharePass := decide (hashInt ≤ job.shareTarget)
    blockPass
    extranonce2Hex := extranonce2.toLower
    ntime
    nonce
    appliedVersion }

def Job.assembleSubmission (crypto : Crypto) (job : Job) (extranonce2 ntime nonce : String)
    (versionBits : Option String) (versionMask : U32) : Except String Submission := do
  require ((Hex.utf8 extranonce2).length = job.extranonce2Size * 2) "unexpected extranonce2 size"
  let _ ← (Hex.decode extranonce2).mapError fun _ => "invalid extranonce2"
  let ntime ← parseU32Hex ntime
  let nonce ← parseU32Hex nonce
  require (job.mintime.val ≤ ntime.val) "ntime precedes template mintime"
  let appliedVersion ← job.appliedVersion versionBits versionMask
  let coinbase ← decodeHex (job.fullCoinbasePrefix ++ job.extranonce1 ++ extranonce2 ++
    job.fullCoinbaseSuffix)
  let preimage ← decodeHex (job.coinb1 ++ job.extranonce1 ++ extranonce2 ++ job.coinb2)
  let stripped ← stripWitnessTransaction coinbase
  require (stripped = preimage) "coinbase witness and txid preimage mismatch"
  let merkle := foldBranch crypto (crypto.hash256 preimage) job.merkleBranch
  let previous ← decodeHex job.previousblockhash
  let header := leBytes 4 appliedVersion.val ++ (previous.reverse ++ (merkle.toList ++
    (leBytes 4 ntime.val ++ (leBytes 4 job.nbits.val ++ leBytes 4 nonce.val))))
  require (header.length = 80) "invalid header size"
  pure (job.submission crypto header coinbase extranonce2 ntime nonce appliedVersion)

def blockTransactions (block : List UInt8) : Except String (ℕ × ℕ) := do
  require (80 ≤ block.length) "truncated block header"
  let (count, offset) ← (Cursor.count block 80).mapError fun _ => "block transaction count"
  require (0 < count) "block declares no transactions"
  pure (count, offset)

def restFrom (block : List UInt8) (offset : ℕ) : Except String (List UInt8) :=
  if offset ≤ block.length then .ok (block.drop offset)
  else .error "truncated block transaction list"

/-- The transactions from `index` on: the leaves of all but the coinbase, and where they end. -/
def leavesFrom (crypto : Crypto) (block : List UInt8) (count : ℕ) :
    ℕ → ℕ → ℕ → Except String (List String × ℕ)
  | 0, _, offset => .ok ([], offset)
  | left + 1, index, offset => do
    let rest ← restFrom block offset
    let layout ← (walkTransaction rest).mapError fun _ => s!"block transaction {index} of {count}"
    let leaf := if 0 < index then [Hex.encode (crypto.hash256 (rest.take layout.len)).toList] else []
    let (leaves, last) ← leavesFrom crypto block count left (index + 1) (offset + layout.len)
    pure (leaf ++ leaves, last)

def witnessMerkleLeavesFromBlock (crypto : Crypto) (block : List UInt8) :
    Except String (List String) := do
  let (count, start) ← blockTransactions block
  let (leaves, offset) ← leavesFrom crypto block count count 0 start
  require (offset = block.length) s!"block has trailing bytes after {count} transactions"
  pure leaves

def coinbaseFromBlock (block : List UInt8) : Except String (List UInt8) := do
  let (_, offset) ← blockTransactions block
  let rest ← restFrom block offset
  let layout ← (walkTransaction rest).mapError fun _ => "block coinbase"
  pure (rest.take layout.len)

end QbitPrism
