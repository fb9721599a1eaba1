import Mathlib
import QbitPrism.Lib.MachineInt
import QbitPrism.Node

/-!
# The carry owner guard

Exactly one node of the pair pays carried balances down. Its guard decides from the
setting, its own journal and a live read of the peer's journal, and anything short of
agreement is carry-free. What one decision remembers for the next is whether the peer
was ever confirmed, and the highest own epoch it has read.
-/
namespace QbitPrism.CarryOwner
open MachineInt

inductive RoleAction where
  | seed
  | release
  | acquire
  deriving DecidableEq

/-- The keys the JSON detail of a journal row may hold. -/
structure RoleDetail where
  setting : Option String := none
  reason : Option String := none
  tipHeight : Option U64 := none
  peerEpoch : Option ℤ := none
  scanFromHeight : Option U64 := none
  poolBlocks : Option ℕ := none
  deriving DecidableEq

structure RoleRow where
  originNode : NodeIndex
  epoch : ℤ
  carryOwner : Bool
  action : RoleAction
  detail : RoleDetail
  deriving DecidableEq

namespace RoleRow

/-- The chain tip height a `release` or `acquire` row recorded. -/
def tipHeight (row : RoleRow) : Option U64 :=
  row.detail.tipHeight

/-- Whether `row` is an acquire written after reading `release`. -/
def acquiredAfter (row release : RoleRow) : Bool :=
  row.action = .acquire && row.detail.peerEpoch.any (fun epoch => release.epoch ≤ epoch)

end RoleRow

def claims (row : Option RoleRow) : Bool :=
  row.any RoleRow.carryOwner

@[simp] theorem claims_none : claims none = false := rfl

@[simp] theorem claims_some (row : RoleRow) : claims (some row) = row.carryOwner := rfl

/-- What the live read of the peer's journal returned. -/
inductive PeerRead where
  | answered (peer ownAtPeer : Option RoleRow) (primary : Bool)
  | failed
  deriving DecidableEq

def PeerRead.peerLive : PeerRead → Option RoleRow
  | .answered peer _ _ => peer
  | .failed => none

structure GuardInputs where
  nodeIndex : NodeIndex
  databaseNode : Option NodeIndex
  envOwner : Bool
  own : Option RoleRow
  peerSynced : Option RoleRow
  peerRead : PeerRead
  layoutMismatch : Option String

inductive CarryFreeReason where
  | notOwner
  | nodeUnidentified
  | noJournalRow
  | configMismatch
  | settingPending
  | ownJournalBehindPeer
  | ownJournalRolledBack
  | claimNotVetted
  | peerClaimsOwnership
  | peerJournalBehind
  | peerNotSeeded
  | peerUnconfirmed
  | layoutMismatch
  deriving DecidableEq

inductive CarryDecision where
  | paying
  | carryFree (reason : CarryFreeReason)
  deriving DecidableEq

def CarryDecision.isPaying (decision : CarryDecision) : Bool :=
  decision = .paying

/-- The decision state one process keeps between reads. -/
structure Guard where
  peerConfirmed : Bool := false
  highestOwnEpoch : Option ℤ := none
  deriving DecidableEq

/-- Of a live and a synced row, the one with the higher epoch; the synced one on a tie,
as `max_by_key` keeps the last of its maxima. -/
def newestRow : Option RoleRow → Option RoleRow → Option RoleRow
  | some live, some synced => if live.epoch ≤ synced.epoch then some synced else some live
  | some live, none => some live
  | none, synced => synced

theorem newestRow_mem {live synced : Option RoleRow} {row : RoleRow}
    (h : newestRow live synced = some row) : live = some row ∨ synced = some row := by
  unfold newestRow at h
  split at h
  · split_ifs at h
    · exact Or.inr h
    · exact Or.inl h
  · exact Or.inl h
  · exact Or.inr h

namespace Guard

def seenOwnRow (guard : Guard) : Bool :=
  guard.highestOwnEpoch.isSome

def notClaiming (guard : Guard) (reason : CarryFreeReason) : Guard × CarryDecision :=
  ({ guard with peerConfirmed := false }, .carryFree reason)

def rolledBack (guard : Guard) (own : Option RoleRow) : Bool :=
  match own, guard.highestOwnEpoch with
  | none, some _ => true
  | some own, some highest => own.epoch < highest
  | _, none => false

/-- The peer's copy of this node's journal is newer than the journal. -/
def behindPeer (own : RoleRow) : PeerRead → Bool
  | .answered _ ownAtPeer _ => ownAtPeer.any (fun theirs => own.epoch < theirs.epoch)
  | .failed => false

/-- The decision once nothing in sight speaks against paying. Only the primary's answer
confirms: a lagging fallback may show a journal the peer has moved past. -/
def confirmPeer (guard : Guard) (peer : Option RoleRow) : PeerRead → Guard × CarryDecision
  | .answered _ _ primary =>
    if peer.isNone then guard.notClaiming .peerNotSeeded
    else if primary || guard.peerConfirmed then ({ guard with peerConfirmed := true }, .paying)
    else (guard, .carryFree .peerUnconfirmed)
  | .failed =>
    if guard.peerConfirmed then (guard, .paying) else (guard, .carryFree .peerUnconfirmed)

/-- What a node that claims ownership decides from the peer's rows. -/
def decidePeer (guard : Guard) (own : RoleRow) (peerSynced : Option RoleRow)
    (peerRead : PeerRead) : Guard × CarryDecision :=
  let peer := newestRow peerRead.peerLive peerSynced
  if claims peer then guard.notClaiming .peerClaimsOwnership
  else if claims peerRead.peerLive then guard.notClaiming .peerJournalBehind
  else if peer.any (fun row => row.action = .release && !own.acquiredAfter row) then
    guard.notClaiming .claimNotVetted
  else guard.confirmPeer peer peerRead

def settingReason (own : RoleRow) : CarryFreeReason :=
  if own.action = .release ∨ own.action = .acquire then .settingPending else .configMismatch

def decide (guard : Guard) (inputs : GuardInputs) : Guard × CarryDecision :=
  if inputs.databaseNode ≠ some inputs.nodeIndex then guard.notClaiming .nodeUnidentified
  else if inputs.layoutMismatch.isSome then guard.notClaiming .layoutMismatch
  else if guard.rolledBack inputs.own then guard.notClaiming .ownJournalRolledBack
  else
    match inputs.own with
    | none => guard.notClaiming .noJournalRow
    | some own =>
      let guard := { guard with highestOwnEpoch := some own.epoch }
      if own.carryOwner ≠ inputs.envOwner then
        guard.notClaiming (settingReason own)
      else if !own.carryOwner then guard.notClaiming .notOwner
      else if behindPeer own inputs.peerRead then guard.notClaiming .ownJournalBehindPeer
      else guard.decidePeer own inputs.peerSynced inputs.peerRead

end Guard

/-- A live read that can confirm the peer: the primary answered, its row does not claim
ownership, and the newest of the peer's rows in sight is there and does not claim it. -/
def Confirms (synced : Option RoleRow) (read : PeerRead) : Prop :=
  ∃ peer ownAtPeer, read = .answered peer ownAtPeer true ∧ claims peer = false ∧
    ∃ row, newestRow peer synced = some row ∧ row.carryOwner = false

namespace Guard

theorem confirmPeer_isPaying (guard : Guard) (peer : Option RoleRow) (read : PeerRead) :
    (guard.confirmPeer peer read).2.isPaying = (guard.confirmPeer peer read).1.peerConfirmed := by
  cases read <;> simp only [confirmPeer] <;> split_ifs <;>
    simp_all [CarryDecision.isPaying, notClaiming]

theorem confirmPeer_confirmed {guard : Guard} {peer : Option RoleRow} {read : PeerRead}
    (h : (guard.confirmPeer peer read).1.peerConfirmed = true) :
    guard.peerConfirmed = true ∨
      ∃ live ownAtPeer, read = .answered live ownAtPeer true ∧ peer.isSome = true := by
  cases read with
  | failed =>
    simp only [confirmPeer] at h
    split_ifs at h <;> exact Or.inl h
  | answered live ownAtPeer primary =>
    simp only [confirmPeer] at h
    split_ifs at h with hnone hconfirmed
    · cases h
    · rcases Bool.or_eq_true_iff.mp hconfirmed with hprimary | hold
      · subst hprimary
        exact Or.inr ⟨live, ownAtPeer, rfl, by simpa [Option.isSome_iff_ne_none] using hnone⟩
      · exact Or.inl hold
    · exact Or.inl h

theorem decidePeer_isPaying (guard : Guard) (own : RoleRow) (synced : Option RoleRow) (read : PeerRead) :
    (guard.decidePeer own synced read).2.isPaying =
      (guard.decidePeer own synced read).1.peerConfirmed := by
  simp only [decidePeer]
  split_ifs
  · rfl
  · rfl
  · rfl
  · exact confirmPeer_isPaying _ _ _

theorem decide_isPaying (guard : Guard) (inputs : GuardInputs) :
    (guard.decide inputs).2.isPaying = (guard.decide inputs).1.peerConfirmed := by
  simp only [decide]
  split_ifs <;> try rfl
  cases inputs.own with
  | none => rfl
  | some own =>
    dsimp only
    split_ifs
    · rfl
    · rfl
    · rfl
    · exact decidePeer_isPaying _ _ _ _

theorem decidePeer_confirmed {guard : Guard} {own : RoleRow} {synced : Option RoleRow}
    {read : PeerRead} (h : (guard.decidePeer own synced read).1.peerConfirmed = true) :
    guard.peerConfirmed = true ∨ Confirms synced read := by
  simp only [decidePeer] at h
  split_ifs at h with hnewest hlive
  · cases h
  · cases h
  · cases h
  · rcases confirmPeer_confirmed h with hold | ⟨live, ownAtPeer, rfl, hsome⟩
    · exact Or.inl hold
    · obtain ⟨row, hrow⟩ := Option.isSome_iff_exists.mp hsome
      refine Or.inr ⟨live, ownAtPeer, rfl, by simpa [PeerRead.peerLive] using hlive, row, hrow, ?_⟩
      simpa [hrow] using hnewest

theorem decide_confirmed {guard : Guard} {inputs : GuardInputs} (h : (guard.decide inputs).1.peerConfirmed = true) :
    claims inputs.own = true ∧
      (guard.peerConfirmed = true ∨ Confirms inputs.peerSynced inputs.peerRead) := by
  simp only [decide] at h
  split_ifs at h <;> try cases h
  cases hown : inputs.own with
  | none =>
    rw [hown] at h
    cases h
  | some own =>
    simp only [hown] at h
    split_ifs at h with henv hfree
    · cases h
    · cases h
    · cases h
    · have hpeer := decidePeer_confirmed h
      exact ⟨by simpa using hfree, hpeer⟩

end Guard

end QbitPrism.CarryOwner
