import Mathlib
import QbitPrism.Lib.Checked
import QbitPrism.Lib.Hex
import QbitPrism.Lib.MachineInt
import QbitPrism.Lib.SortBy
import QbitPrism.Window.Cut

/-!
# The payout data

The records of the payout pipeline (`qbit-prism/src/lib.rs`). The three strings
that name a payout recipient recur in most of them and are compared in one
canonical order, so they stand in a record of their own.
-/
namespace QbitPrism
open MachineInt SortBy

inductive BuilderError where
  | emptyCoinbaseValue
  | emptyEntitlements
  | zeroWeight (recipientId : String)
  | weightOverflow
  | allocationOverflow
  | allocationTotalMismatch (allocated coinbaseValue : U64)
  | invalidP2mrProgram (recipientId reason : String)
  | pinnedFirstOutputMissing (recipientId : String)
  | pinnedFirstOutputAmbiguous (recipientId : String)
  | heightOverflow
  | coinbaseScriptSigTooLong (length : ℕ)
  | coinbaseWeightTooHigh (weight maxWeight : ℕ)
  | hex (error : Hex.FromHexError)
  | invalidPublicKeyLength (length : ℕ)
  | invalidSignatureLength (length : ℕ)
  | signatureVerificationFailed
  deriving DecidableEq

inductive PrismError where
  | zeroNetworkDifficulty
  | zeroShareDifficulty (shareSeq : U64)
  | duplicateShareId (shareId : String)
  | shareOutsideWindowCut (shareSeq : U64)
  | windowOverflow
  | payoutPolicyOverflow
  | invalidMinOutputFloor
  | poolFeeBpsTooHigh (feeBps : U16)
  | duplicatePoolFeeAccount
  | poolFeeFirstRequiresPoolFee
  | emptyWindow (anchorJobIssuedAtMs : I64)
  | coinbaseBelowFloor (coinbaseValueSats minOutputSats : U64)
  | noOnchainRecipients
  | payoutExceedsCandidateBalance (coinbaseValueSats : U64) (selectedCandidateBalanceSats : U128)
  | payoutBelowFloor (recipientId : String) (amountSats minOutputSats : U64)
  | maturePayoutDisconnect (blockHash : String)
  | builder (error : BuilderError)
  | auditMismatch (artifact : String)
  | ledgerAttestationKeyReuse
  | invalidCtvFanoutManifest (reason : String)
  | invalidAuditCommitment (reason : String)
  | settlementModeSelection (reason : String)
  /-- A Rust panic: an `expect` or `unwrap` that did not hold. -/
  | panicked (message : String)
  /-- The bound the model puts on a loop was reached; no function of the model returns it. -/
  | outOfFuel
  deriving DecidableEq

/-- Who is paid: the three strings every payout record carries. -/
structure PayoutIdentity where
  recipientId : String
  orderKey : String
  p2mrProgramHex : String
  deriving DecidableEq

/-- The canonical order of payout records: `order_key`, then `recipient_id`, then
`p2mr_program_hex`. -/
def PayoutIdentity.canonicalCmp : PayoutIdentity → PayoutIdentity → Ordering :=
  compareLex (compareOn (·.orderKey)) (compareLex (compareOn (·.recipientId)) (compareOn (·.p2mrProgramHex)))

instance : Std.TransCmp PayoutIdentity.canonicalCmp := by
  unfold PayoutIdentity.canonicalCmp
  infer_instance

instance : Std.LawfulEqCmp PayoutIdentity.canonicalCmp where
  eq_of_compare {a b} h := by
    simp only [PayoutIdentity.canonicalCmp, compareLex_eq_eq, compareOn, Std.LawfulEqCmp.compare_eq_iff_eq] at h
    obtain ⟨horder, hrecipient, hprogram⟩ := h
    cases a
    cases b
    simp_all

/-- Whether `a` comes before `b` by `(order_key, recipient_id)`. -/
def PayoutIdentity.namedBefore (a b : PayoutIdentity) : Bool :=
  a.orderKey < b.orderKey || (a.orderKey == b.orderKey && a.recipientId < b.recipientId)

def payoutProgramKey (p2mrProgramHex : String) : String := p2mrProgramHex.toLower

def PayoutIdentity.programKey (a : PayoutIdentity) : String := payoutProgramKey a.p2mrProgramHex

structure WeightedEntitlement extends PayoutIdentity where
  weight : U128
  deriving DecidableEq

structure CarryForwardBalance extends PayoutIdentity where
  balanceSats : I128
  deriving DecidableEq

structure CountedShare where
  shareSeq : U64
  shareId : String
  minerId : String
  orderKey : String
  p2mrProgramHex : String
  shareDifficulty : U128
  countedDifficulty : U128
  jobIssuedAtMs : I64
  acceptedAtMs : I64
  creditPolicy : Option String
  deriving DecidableEq

structure PrismRewardManifest where
  schema : String
  blockHeight : U64
  coinbaseValueSats : U64
  networkDifficulty : U128
  windowMultiplier : U128
  requestedWindowWeight : U128
  countedWindowWeight : U128
  anchorJobIssuedAtMs : I64
  anchorShareSeq : U64
  newestShareSeq : U64
  oldestShareSeq : U64
  cut : Option WindowCut
  includedShareCount : ℕ
  shareSliceDigestHex : String
  shares : List CountedShare
  entitlements : List WeightedEntitlement
  deriving DecidableEq

inductive CoinbaseOutputPolicy where
  | canonical
  | poolFeeFirst
  deriving DecidableEq

structure PoolFeePolicy extends PayoutIdentity where
  feeBps : U16
  deriving DecidableEq

structure PayoutPolicy where
  p2mrSpendInputBytes : U64
  targetFeerateSatsPerByte : U64
  safetyMultiplier : U64
  minOutputSats? : Option U64
  poolFeePolicy : Option PoolFeePolicy
  coinbaseOutputPolicy : CoinbaseOutputPolicy
  deriving DecidableEq

structure PoolFeeManifest extends PayoutIdentity where
  feeBps : U16
  earnedPoolFeeSats : U64
  sweptDustLiabilitySats : U64
  amountSats : U64
  deriving DecidableEq

inductive PayoutPolicyAccountType where
  | miner
  | poolFee
  deriving DecidableEq

inductive PayoutPolicyAction where
  | onchain
  | accrued
  deriving DecidableEq

structure PayoutPolicyAccount extends PayoutIdentity where
  accountType : PayoutPolicyAccountType
  grossAmountSats : U64
  priorBalanceSats : I128
  candidateBalanceSats : I128
  onchainAmountSats : U64
  settlementFeeSats : U64
  carryForwardBalanceSats : I128
  action : PayoutPolicyAction
  deriving DecidableEq

structure PayoutPolicyManifest where
  schema : String
  blockHeight : U64
  coinbaseValueSats : U64
  minOutputSats : U64
  floorFormula : String
  coinbaseOutputPolicy : CoinbaseOutputPolicy
  poolFee : Option PoolFeeManifest
  accounts : List PayoutPolicyAccount
  onchainEntitlements : List WeightedEntitlement
  deriving DecidableEq

/-- `u64` into `i128`. -/
def U64.toI128 (n : U64) : I128 :=
  ⟨n.val, le_trans (by norm_num) (Int.natCast_nonneg n.val), by
    have h := n.isLt
    norm_num at h ⊢
    omega⟩

/-- `u64` into `u128`. -/
def U64.toU128 (n : U64) : U128 := ⟨n.val, lt_trans n.isLt (by norm_num)⟩

@[simp] theorem U64.toI128_val (n : U64) : (U64.toI128 n).val = n.val := rfl

@[simp] theorem U64.toU128_val (n : U64) : (U64.toU128 n).val = n.val := rfl

/-- `u128::try_from` of a signed value. -/
def I128.toU128? (z : I128) : Option U128 :=
  if 0 ≤ z.val then Unsigned.ofNat? z.val.toNat else none

/-- `u64::try_from` of a signed value. -/
def I128.toU64? (z : I128) : Option U64 :=
  if 0 ≤ z.val then Unsigned.ofNat? z.val.toNat else none

/-- The `as u128` cast, which wraps. -/
def I128.asU128 (z : I128) : U128 :=
  ⟨(z.val % 2 ^ 128).toNat, by
    have h1 : (0 : ℤ) ≤ z.val % 2 ^ 128 := Int.emod_nonneg _ (by norm_num)
    have h2 : z.val % 2 ^ 128 < 2 ^ 128 := Int.emod_lt_of_pos _ (by norm_num)
    zify
    rw [Int.toNat_of_nonneg h1]
    exact h2⟩

theorem I128.toU128?_eq_some {z : I128} {u : U128} : I128.toU128? z = some u ↔ (u.val : ℤ) = z.val := by
  unfold I128.toU128?
  split_ifs with h
  · rw [Unsigned.ofNat?_eq_some]
    omega
  · simp only [false_iff]
    omega

theorem I128.toU64?_eq_some {z : I128} {u : U64} : I128.toU64? z = some u ↔ (u.val : ℤ) = z.val := by
  unfold I128.toU64?
  split_ifs with h
  · rw [Unsigned.ofNat?_eq_some]
    omega
  · simp only [false_iff]
    omega

theorem I128.asU128_val {z : I128} (h : 0 ≤ z.val) : ((I128.asU128 z).val : ℤ) = z.val := by
  have hlt := z.upper
  simp only [I128.asU128]
  rw [Int.emod_eq_of_lt h (by norm_num at hlt ⊢; omega), Int.toNat_of_nonneg h]

theorem I128.toU128?_isSome {z : I128} (h : 0 ≤ z.val) : I128.toU128? z = some (I128.asU128 z) :=
  I128.toU128?_eq_some.mpr (I128.asU128_val h)

end QbitPrism
