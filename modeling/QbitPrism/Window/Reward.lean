import Mathlib
import QbitPrism.Lib.MergeByKey
import QbitPrism.Payout.Types
import QbitPrism.Tx.Hash

/-!
# The reward window

The newest shares issued and accepted by the anchor, counted back until their difficulties
add up to eight times the network difficulty, and the entitlements they give.
-/
namespace QbitPrism
open MachineInt Checked MergeByKey SortBy ByteReader

structure AcceptedShare where
  shareSeq : U64
  shareId : String
  minerId : String
  orderKey : String
  p2mrProgramHex : String
  shareDifficulty : U128
  networkDifficulty : U128
  templateHeight : U64
  jobId : String
  jobIssuedAtMs : I64
  acceptedAtMs : I64
  ntime : U32
  creditPolicy : Option String
  deriving DecidableEq

structure FoundBlock where
  blockHeight : U64
  coinbaseValueSats : U64
  networkDifficulty : U128
  anchorJobIssuedAtMs : I64
  deriving DecidableEq

structure PrismWindow where
  anchorJobIssuedAtMs : I64
  anchorShareSeq : U64
  requestedWindowWeight : U128
  countedWindowWeight : U128
  shares : List CountedShare
  entitlements : List WeightedEntitlement

def prismWindowMultiplier : U128 := 8

def AcceptedShare.eligible (share : AcceptedShare) (anchorJobIssuedAtMs : I64) : Prop :=
  share.jobIssuedAtMs.val ≤ anchorJobIssuedAtMs.val ∧ share.acceptedAtMs.val ≤ anchorJobIssuedAtMs.val

instance (share : AcceptedShare) (anchor : I64) : Decidable (share.eligible anchor) := by
  unfold AcceptedShare.eligible
  infer_instance

/-- At or below the cut's highest entry; every share is, without a cut. -/
def WindowCut.reaches (cut : Option WindowCut) (shareSeq : U64) : Prop :=
  ∀ c ∈ cut, ∃ top ∈ c.top, shareSeq.val ≤ top.val

instance (cut : Option WindowCut) (shareSeq : U64) : Decidable (WindowCut.reaches cut shareSeq) := by
  unfold WindowCut.reaches
  infer_instance

def admitShare (foundBlock : FoundBlock) (cut : Option WindowCut)
    (state : List String × List AcceptedShare) (share : AcceptedShare) :
    Except PrismError (List String × List AcceptedShare) := do
  let (seenShareIds, eligible) := state
  require (share.shareDifficulty ≠ 0) (.zeroShareDifficulty share.shareSeq)
  require (WindowCut.reaches cut share.shareSeq) (.shareOutsideWindowCut share.shareSeq)
  require (share.shareId ∉ seenShareIds) (.duplicateShareId share.shareId)
  if share.eligible foundBlock.anchorJobIssuedAtMs then
    pure (share.shareId :: seenShareIds, eligible ++ [share])
  else pure (share.shareId :: seenShareIds, eligible)

/-- Whether each sequence number stands in this relation to the next. -/
def pairwiseSeq (r : ℕ → ℕ → Bool) (shares : List AcceptedShare) : Bool :=
  (shares.zip shares.tail).all fun pair => r pair.1.shareSeq.val pair.2.shareSeq.val

/-- Newest first; a list already in order, either way round, is not sorted. -/
def newestFirst (shares : List AcceptedShare) : List AcceptedShare :=
  if pairwiseSeq (fun a b => a < b) shares then shares.reverse
  else if pairwiseSeq (fun a b => b < a) shares then shares
  else sortBy (fun a b => compare b.shareSeq.val a.shareSeq.val) shares

def eligibleWindow (shares : List AcceptedShare) (foundBlock : FoundBlock) (cut : Option WindowCut) :
    Except PrismError (List AcceptedShare × U128) := do
  require (foundBlock.networkDifficulty ≠ 0) .zeroNetworkDifficulty
  let (_, eligible) ← shares.foldlM (admitShare foundBlock cut) ([], [])
  let requestedWindowWeight ← okOr (foundBlock.networkDifficulty.checkedMul prismWindowMultiplier)
    .windowOverflow
  pure (newestFirst eligible, requestedWindowWeight)

def countShare (share : AcceptedShare) (counted : U128) : CountedShare :=
  { shareSeq := share.shareSeq
    shareId := share.shareId
    minerId := share.minerId
    orderKey := share.orderKey
    p2mrProgramHex := share.p2mrProgramHex
    shareDifficulty := share.shareDifficulty
    countedDifficulty := counted
    jobIssuedAtMs := share.jobIssuedAtMs
    acceptedAtMs := share.acceptedAtMs
    creditPolicy := share.creditPolicy }

/-- Count whole shares until the weight is reached; the last one counts in part. -/
def countShares (remaining : U128) : List AcceptedShare → List CountedShare
  | [] => []
  | share :: rest =>
    if remaining = 0 then []
    else
      let counted := if share.shareDifficulty.val ≤ remaining.val then share.shareDifficulty else remaining
      countShare share counted :: countShares (remaining.saturatingSub counted) rest

/-- The order of `MinerKey`: its fields as declared. -/
def minerKeyCmp : PayoutIdentity → PayoutIdentity → Ordering :=
  compareLex (compareOn (·.recipientId)) (compareLex (compareOn (·.orderKey)) (compareOn (·.p2mrProgramHex)))

def countedShareMerger : Merger PayoutIdentity CountedShare WeightedEntitlement PrismError where
  key share := ⟨share.minerId, share.orderKey, share.p2mrProgramHex⟩
  fresh share := { recipientId := share.minerId, orderKey := share.orderKey
                   p2mrProgramHex := share.p2mrProgramHex, weight := 0 }
  add entry share := do
    let weight ← okOr (entry.weight.checkedAdd share.countedDifficulty) .windowOverflow
    pure { entry with weight }

def aggregateEntitlements (countedShares : List CountedShare) :
    Except PrismError (List WeightedEntitlement) := do
  let weights : Std.TreeMap PayoutIdentity WeightedEntitlement minerKeyCmp ←
    countedShareMerger.merge countedShares
  pure (weights.toList.map Prod.snd)

def computePrismWindowInCut (shares : List AcceptedShare) (foundBlock : FoundBlock)
    (cut : Option WindowCut) : Except PrismError PrismWindow := do
  let (eligible, requestedWindowWeight) ← eligibleWindow shares foundBlock cut
  let countedShares := countShares requestedWindowWeight eligible
  let newest ← okOr countedShares.head? (.emptyWindow foundBlock.anchorJobIssuedAtMs)
  let countedWindowWeight ← okOr (Unsigned.checkedSum (countedShares.map (·.countedDifficulty)))
    .windowOverflow
  let entitlements ← aggregateEntitlements countedShares
  pure {
    anchorJobIssuedAtMs := foundBlock.anchorJobIssuedAtMs
    anchorShareSeq := newest.shareSeq
    requestedWindowWeight
    countedWindowWeight
    shares := countedShares
    entitlements }

def computePrismWindow (shares : List AcceptedShare) (foundBlock : FoundBlock) :
    Except PrismError PrismWindow :=
  computePrismWindowInCut shares foundBlock none

def stringBytes (value : String) : List UInt8 :=
  beBytes 8 (Hex.utf8 value).length ++ Hex.utf8 value

def sliceDigestBytes (share : CountedShare) : List UInt8 :=
  beBytes 8 share.shareSeq.val ++ (stringBytes share.shareId ++ (stringBytes share.minerId ++
    (stringBytes share.orderKey ++ (stringBytes share.p2mrProgramHex ++
      (beBytes 16 share.shareDifficulty.val ++ (beBytes 16 share.countedDifficulty.val ++
        (beBytesSigned 8 share.jobIssuedAtMs.val ++ (beBytesSigned 8 share.acceptedAtMs.val ++
          match share.creditPolicy with
          | none => []
          | some creditPolicy => stringBytes "credit_policy" ++ stringBytes creditPolicy))))))))

def shareSliceDigestHex (crypto : Crypto) (shares : List CountedShare) : String :=
  crypto.sha256Hex (shares.flatMap sliceDigestBytes)

def priorBalanceBytes (balance : CarryForwardBalance) : List UInt8 :=
  stringBytes balance.recipientId ++ (stringBytes balance.orderKey ++
    (stringBytes balance.p2mrProgramHex ++ beBytesSigned 16 balance.balanceSats.val))

def priorBalancesDigestHex (crypto : Crypto) (balances : List CarryForwardBalance) : String :=
  let ordered := sortBy (fun a b => a.toPayoutIdentity.canonicalCmp b.toPayoutIdentity) balances
  crypto.sha256Hex (ordered.flatMap priorBalanceBytes)

def buildPrismRewardManifestWithCut (crypto : Crypto) (shares : List AcceptedShare)
    (foundBlock : FoundBlock) (cut : Option WindowCut) : Except PrismError PrismRewardManifest := do
  let window ← computePrismWindowInCut shares foundBlock cut
  let newest ← okOr window.shares.head? (.panicked "index out of bounds")
  let oldest ← okOr window.shares.getLast? (.panicked "non-empty PRISM windows have a last share")
  pure {
    schema := "qbit.prism.reward-manifest.v1"
    blockHeight := foundBlock.blockHeight
    coinbaseValueSats := foundBlock.coinbaseValueSats
    networkDifficulty := foundBlock.networkDifficulty
    windowMultiplier := prismWindowMultiplier
    requestedWindowWeight := window.requestedWindowWeight
    countedWindowWeight := window.countedWindowWeight
    anchorJobIssuedAtMs := window.anchorJobIssuedAtMs
    anchorShareSeq := window.anchorShareSeq
    newestShareSeq := newest.shareSeq
    oldestShareSeq := oldest.shareSeq
    cut
    includedShareCount := window.shares.length
    shareSliceDigestHex := shareSliceDigestHex crypto window.shares
    shares := window.shares
    entitlements := window.entitlements }

end QbitPrism
