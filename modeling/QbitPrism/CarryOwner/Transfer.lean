import Mathlib
import QbitPrism.CarryOwner.Guard

/-!
# The checks of an ownership transfer

`carry-owner transfer` appends an `acquire` row only when every check passes: the peer
was read live and does not claim ownership, its release is buried, and a scan of the
active chain finds every pool block landed here.
-/
namespace QbitPrism.CarryOwner
open MachineInt

def RoleAction.asStr : RoleAction → String
  | .seed => "seed"
  | .release => "release"
  | .acquire => "acquire"

namespace Transfer

/-- A pool block's landing in this node's ledger. -/
inductive Landing where
  | confirmed
  | unconfirmed
  | missing
  deriving DecidableEq

structure ScannedBlock where
  height : U64
  blockHash : String
  landing : Landing
  deriving DecidableEq

structure ChainScan where
  fromHeight : U64
  tipHeight : U64
  tipHash : String
  scannedBlocks : U64
  poolBlocks : List ScannedBlock
  deriving DecidableEq

def ChainScan.unresolved (scan : ChainScan) : List ScannedBlock :=
  scan.poolBlocks.filter (fun block => block.landing ≠ .confirmed)

structure Check where
  check : String
  ok : Bool
  detail : String
  deriving DecidableEq

/-- Everything `transfer` decides from. -/
structure TransferFacts where
  nodeIndex : NodeIndex
  databaseNode : Option NodeIndex
  own : Option RoleRow
  peerRead : PeerRead
  peerSynced : Option RoleRow
  peerClaim : Option RoleRow
  peerClaimRead : Bool
  peerClaimConflict : Bool
  tipHeight : U64
  releaseDepth : U64
  scan : ChainScan

def nodeIdentityCheck (facts : TransferFacts) : Check :=
  let node := match facts.databaseNode with
    | some node => toString node.index
    | none => "unset"
  { check := "node_identity"
    ok := facts.databaseNode = some facts.nodeIndex
    detail := s!"PRISM_NODE_INDEX is {facts.nodeIndex.index}; the database's node identity is {node}" }

def thisNodeNotOwnerCheck (own : Option RoleRow) : Check :=
  match own with
  | some own =>
    if own.carryOwner then
      { check := "this_node_not_owner", ok := false
        detail := s!"this node already holds ownership (epoch {own.epoch}, {own.action.asStr})" }
    else
      { check := "this_node_not_owner", ok := true
        detail := s!"this node's latest row: epoch {own.epoch}, {own.action.asStr}" }
  | none =>
    { check := "this_node_not_owner", ok := true, detail := "this node has no journal row yet" }

/-- The live row and this node's copy of it at one epoch disagree. -/
def liveConflict (live synced : Option RoleRow) : Option RoleRow :=
  match live, synced with
  | some live, some synced =>
    if live.epoch = synced.epoch ∧ live ≠ synced then some live else none
  | _, _ => none

def peerNotOwnerCheck (live synced : Option RoleRow) : Check :=
  let mk (ok : Bool) (detail : String) : Check := { check := "peer_not_owner", ok, detail }
  match newestRow live synced with
  | none => mk false "the peer has no journal row: it has never run in dual-writer mode"
  | some peer =>
    match liveConflict live synced with
    | some conflict =>
      mk false s!"the peer's live journal and this node's copy of it disagree at epoch {conflict.epoch}: a peer sync conflict to investigate"
    | none =>
      if peer.carryOwner then
        mk false s!"the peer holds ownership (epoch {peer.epoch}, {peer.action.asStr}); run carry-owner release on it first"
      else
        match live.filter RoleRow.carryOwner with
        | some live =>
          mk false s!"the peer's live journal claims ownership (epoch {live.epoch}, {live.action.asStr}) behind a newer row this node holds of it: it was restored from a backup; wait for its own-log recovery"
        | none => mk true s!"the peer's latest row: epoch {peer.epoch}, {peer.action.asStr}"

def ownJournalCurrentCheck (own ownAtPeer : Option RoleRow) : Check :=
  let behind := ownAtPeer.any (fun theirs => own.all (fun own => own.epoch < theirs.epoch))
  { check := "own_journal_current"
    ok := !behind
    detail :=
      if behind then
        "the peer holds a newer row of this node's than this node does; wait for own-log recovery"
      else "this node's journal is at least as new as the peer's copy of it" }

/-- How far below the tip an `acquire` recorded a transfer's scan must start. -/
def scanReorgMargin : ℕ := 1000

/-- The scan must start far enough below the tip the peer's latest claim recorded; a
claim that recorded none bounds nothing, so the scan must then read the whole chain. -/
def scanStart (facts : TransferFacts) : Check :=
  let mk (ok : Bool) (detail : String) : Check := { check := "scan_start", ok, detail }
  let start := facts.scan.fromHeight.val
  if !facts.peerClaimRead then
    mk false "the peer's claims of ownership could not be read, so nothing bounds the scan"
  else if facts.peerClaimConflict then
    mk false "the peer's live journal and this database's copy hold different claims of ownership at one epoch (the peer's journal was rewritten), so neither bounds the scan; find out why before any transfer"
  else
    match facts.peerClaim with
    | none =>
      -- A release follows a claim: without one in sight, nothing bounds the scan.
      if [facts.peerRead.peerLive, facts.peerSynced].reduceOption.any
          (fun row => row.action = .release) then
        mk false "the peer released ownership, but no claim of it can be read, so nothing bounds the scan"
      else mk true "the peer never claimed ownership, so it found no carry-paying block"
    | some claim =>
      match claim.tipHeight with
      | some tip =>
        let bound := tip.val - scanReorgMargin
        mk (start ≤ bound) s!"the scan starts at height {start}; the peer's last claim of ownership (epoch {claim.epoch}, {claim.action.asStr}) recorded height {tip.val}, and the scan must start at or below {bound}, {scanReorgMargin} blocks under it, in case the chain reorganized below it after the claim"
      | none =>
        mk (start = 0) s!"the scan starts at height {start}; the peer's last claim of ownership (epoch {claim.epoch}, {claim.action.asStr}) recorded no height, so the scan must read the whole chain (--from-height 0)"

def releaseDepthCheck (facts : TransferFacts) (peer : RoleRow) : Check :=
  match peer.tipHeight with
  | some released =>
    let due := released.saturatingAdd facts.releaseDepth
    { check := "release_depth"
      ok := due.val ≤ facts.tipHeight.val
      detail := s!"the peer released at height {released.val}; the tip is {facts.tipHeight.val} and must reach {due.val}" }
  | none =>
    { check := "release_depth", ok := false
      detail := "the peer's release row records no tip height" }

def peerChecks (facts : TransferFacts) : List Check :=
  match facts.peerRead with
  | .failed =>
    [{ check := "peer_answered", ok := false
       detail := "the peer's journal could not be read over PRISM_PEER_DATABASE_URL (transfer never reads the fallback), so it may still act as owner" }]
  | .answered live ownAtPeer _ =>
    [{ check := "peer_answered", ok := true, detail := "the peer's journal was read live" },
      peerNotOwnerCheck live facts.peerSynced,
      ownJournalCurrentCheck facts.own ownAtPeer,
      scanStart facts] ++
    ((newestRow live facts.peerSynced).filter (fun peer => peer.action = .release)).toList.map
      (releaseDepthCheck facts)

def unresolvedText (block : ScannedBlock) : String :=
  let landing := match block.landing with
    | .missing => "no landing rows"
    | _ => "landed, not confirmed"
  s!"{block.blockHash} at {block.height.val} ({landing})"

def chainScanCheck (scan : ChainScan) : Check :=
  let count := scan.unresolved.length
  let texts := String.intercalate ", " ((scan.unresolved.take 20).map unresolvedText)
  { check := "chain_scan"
    ok := count = 0
    detail :=
      if count = 0 then
        s!"{scan.poolBlocks.length} pool blocks between heights {scan.fromHeight.val} and {scan.tipHeight.val} are landed and confirmed here"
      else
        s!"{count} pool blocks on the active chain are not landed and confirmed here: {texts}" }

/-- `transfer`'s checks, every one evaluated. -/
def transferChecks (facts : TransferFacts) : List Check :=
  [nodeIdentityCheck facts, thisNodeNotOwnerCheck facts.own] ++ peerChecks facts ++
    [chainScanCheck facts.scan]

def passed (checks : List Check) : Bool :=
  checks.all Check.ok

theorem thisNodeNotOwnerCheck_ok {own : Option RoleRow} :
    (thisNodeNotOwnerCheck own).ok = true ↔ claims own = false := by
  cases own with
  | none => simp [thisNodeNotOwnerCheck]
  | some own =>
    cases howner : own.carryOwner <;> simp [thisNodeNotOwnerCheck, howner]

theorem peerNotOwnerCheck_ok {live synced : Option RoleRow} (h : (peerNotOwnerCheck live synced).ok = true) :
    claims live = false ∧
      ∃ row, newestRow live synced = some row ∧ row.carryOwner = false := by
  unfold peerNotOwnerCheck at h
  cases hnewest : newestRow live synced with
  | none => simp [hnewest] at h
  | some peer =>
    cases hconflict : liveConflict live synced with
    | some conflict => simp [hnewest, hconflict] at h
    | none =>
      cases howner : peer.carryOwner with
      | true => simp [hnewest, hconflict, howner] at h
      | false =>
        refine ⟨?_, peer, rfl, howner⟩
        cases live with
        | none => rfl
        | some live =>
          by_contra hclaim
          simp [hnewest, hconflict, howner, Option.filter, show live.carryOwner = true by simpa using hclaim] at h

theorem passed_transferChecks {facts : TransferFacts} (h : passed (transferChecks facts) = true) :
    claims facts.own = false ∧ claims facts.peerRead.peerLive = false ∧
      ∃ row, newestRow facts.peerRead.peerLive facts.peerSynced = some row ∧
        row.carryOwner = false := by
  have hall : ∀ c ∈ transferChecks facts, c.ok = true := by
    simpa [passed] using h
  have hown : claims facts.own = false := by
    apply thisNodeNotOwnerCheck_ok.mp
    exact hall _ (by simp [transferChecks])
  refine ⟨hown, ?_⟩
  cases hread : facts.peerRead with
  | failed =>
    simp [transferChecks, peerChecks, hread] at hall
  | answered live ownAtPeer primary =>
    apply peerNotOwnerCheck_ok
    apply hall
    simp [transferChecks, peerChecks, hread, PeerRead.peerLive]

end Transfer

end QbitPrism.CarryOwner
