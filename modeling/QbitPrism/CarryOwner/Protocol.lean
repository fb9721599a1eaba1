import Mathlib
import QbitPrism.CarryOwner.Transfer

/-!
# Two nodes, their journals, guards and transfers

Each node appends to its own journal, holds a copy of the peer's that is any growing
initial part of it, and runs one guard. Every read, the decision, the gate and every
journal write is a step of its own, so the two nodes' steps interleave in any order. A
restart resets the guard and may change the setting; it is the only step that does.
-/
namespace QbitPrism.CarryOwner
open MachineInt

structure Journal where
  rows : List RoleRow
  rising : rows.Pairwise (fun earlier later => earlier.epoch < later.epoch)

namespace Journal

def empty : Journal where
  rows := []
  rising := List.Pairwise.nil

/-- The latest of the first `n` rows: what a copy that holds that much of it shows. -/
def latestOf (journal : Journal) (n : ℕ) : Option RoleRow :=
  (journal.rows.take n).getLast?

def latest (journal : Journal) : Option RoleRow :=
  journal.rows.getLast?

/-- The latest claim of ownership among the first `n` rows. -/
def latestClaimOf (journal : Journal) (n : ℕ) : Option RoleRow :=
  ((journal.rows.take n).filter RoleRow.carryOwner).getLast?

def append (journal : Journal) (row : RoleRow)
    (hrise : ∀ earlier ∈ journal.rows, earlier.epoch < row.epoch) : Journal where
  rows := journal.rows ++ [row]
  rising := by
    refine List.pairwise_append.mpr ⟨journal.rising, List.pairwise_singleton _ _, ?_⟩
    intro earlier hearlier later hlater
    rw [List.mem_singleton.mp hlater]
    exact hrise earlier hearlier

@[simp] theorem append_rows (journal : Journal) (row : RoleRow)
    (hrise : ∀ earlier ∈ journal.rows, earlier.epoch < row.epoch) :
    (journal.append row hrise).rows = journal.rows ++ [row] := rfl

@[simp] theorem latest_append (journal : Journal) (row : RoleRow)
    (hrise : ∀ earlier ∈ journal.rows, earlier.epoch < row.epoch) :
    (journal.append row hrise).latest = some row := by
  simp [latest]

theorem latest_mem {journal : Journal} {row : RoleRow} (h : journal.latest = some row) :
    row ∈ journal.rows :=
  List.mem_of_getLast? h

theorem latestOf_mem {journal : Journal} {n : ℕ} {row : RoleRow}
    (h : journal.latestOf n = some row) : row ∈ journal.rows :=
  List.mem_of_mem_take (List.mem_of_getLast? h)

@[simp] theorem latest_eq_none {journal : Journal} : journal.latest = none ↔ journal.rows = [] := by
  simp [latest]

end Journal

/-- The latest rows one journal holds for a node and its peer. -/
structure LatestRoles where
  own : Option RoleRow
  peer : Option RoleRow

structure PeerView where
  latest : LatestRoles
  peerClaim : Option RoleRow

/-- How far a guard's check has come. Each phase holds what the check has read; `fresh`
records that no row of its node was written since it started. -/
inductive CheckPhase where
  | idle
  | reading (databaseNode : Option NodeIndex) (roles : LatestRoles) (earlier : Option PeerRead)
      (fresh : Bool)
  | seedRead (databaseNode : Option NodeIndex) (roles : LatestRoles) (read : PeerRead)
      (fresh : Bool)
  | seeded (databaseNode : Option NodeIndex) (read : PeerRead) (fresh : Bool)
  | asked (databaseNode : Option NodeIndex) (roles : LatestRoles) (read : PeerRead) (fresh : Bool)
  | decided (own : Option RoleRow) (decision : CarryDecision) (fresh : Bool)

def CheckPhase.overtaken : CheckPhase → CheckPhase
  | .idle => .idle
  | .reading databaseNode roles earlier _ => .reading databaseNode roles earlier false
  | .seedRead databaseNode roles read _ => .seedRead databaseNode roles read false
  | .seeded databaseNode read _ => .seeded databaseNode read false
  | .asked databaseNode roles read _ => .asked databaseNode roles read false
  | .decided own decision _ => .decided own decision false

/-- How far a run of `carry-owner transfer` has come. -/
inductive TransferPhase where
  | viewed (view : Option PeerView)
  | observed (view : Option PeerView) (databaseNode : Option NodeIndex) (roles : LatestRoles)
  | checked (facts : Transfer.TransferFacts)
  | reread (facts : Transfer.TransferFacts) (tail : RoleRow)
  | unchanged (facts : Transfer.TransferFacts) (tail : RoleRow)
  | copied (facts : Transfer.TransferFacts)

/-- One node: its database, its frontend's guard and gate, and the transfers run on it.
`fullCheck` and `lastAppend` are history: whether a check that started after the latest
own row has completed, and when that row was written. -/
structure NodeState where
  journal : Journal
  synced : ℕ
  setting : Bool
  guard : Guard
  gate : Bool
  check : CheckPhase
  transfers : List TransferPhase
  fullCheck : Bool
  lastAppend : ℕ

namespace NodeState

def roles (n p : NodeState) : LatestRoles where
  own := n.journal.latest
  peer := p.journal.latestOf n.synced

def view (n p : NodeState) : PeerView where
  latest := { own := n.journal.latestOf p.synced, peer := p.journal.latest }
  peerClaim := p.journal.latestClaimOf p.journal.rows.length

end NodeState

/-- What a read of the peer may return: nothing, the primary's current rows, or those of
a fallback, which may lag behind by any amount. -/
inductive PeerAnswers (n p : NodeState) : PeerRead → Prop where
  | failed : PeerAnswers n p .failed
  | primary : PeerAnswers n p (.answered p.journal.latest (n.journal.latestOf p.synced) true)
  | fallback (peerRows ownRows : ℕ) :
      PeerAnswers n p
        (.answered (p.journal.latestOf peerRows) (n.journal.latestOf ownRows) false)

/-- The least release depth `transfer` waits for. -/
def minReleaseDepth : U64 := 2

/-- The facts `transfer` checks: the snapshot of the peer and the local rows it read
earlier, the newest claim of the peer's in sight, and its scan. -/
def transferFacts (i : NodeIndex) (view : Option PeerView) (databaseNode : Option NodeIndex)
    (roles : LatestRoles) (syncedClaim : Option RoleRow) (releaseDepth : U64)
    (scan : Transfer.ChainScan) : Transfer.TransferFacts :=
  let liveClaim := view.bind PeerView.peerClaim
  { nodeIndex := i
    databaseNode
    own := roles.own
    peerRead := match view with
      | some view => .answered view.latest.peer view.latest.own true
      | none => .failed
    peerSynced := roles.peer
    peerClaim := newestRow liveClaim syncedClaim
    peerClaimRead := view.isSome
    peerClaimConflict := (Transfer.liveConflict liveClaim syncedClaim).isSome
    tipHeight := scan.tipHeight
    releaseDepth := if releaseDepth.val ≤ minReleaseDepth.val then minReleaseDepth else releaseDepth
    scan }

def Transfer.TransferFacts.checkedRow (facts : Transfer.TransferFacts) : Option RoleRow :=
  newestRow facts.peerRead.peerLive facts.peerSynced

def seedRow (i : NodeIndex) (epoch : ℤ) (setting : Bool) : RoleRow where
  originNode := i
  epoch
  carryOwner := setting
  action := .seed
  detail := { setting := some "PRISM_CARRY_OWNER" }

def releaseRow (i : NodeIndex) (epoch : ℤ) (reason : String) (tip : U64) : RoleRow where
  originNode := i
  epoch
  carryOwner := false
  action := .release
  detail := { reason := some reason, tipHeight := some tip }

def acquireRow (i : NodeIndex) (epoch : ℤ) (reason : String) (facts : Transfer.TransferFacts) :
    RoleRow where
  originNode := i
  epoch
  carryOwner := true
  action := .acquire
  detail :=
    { reason := some reason
      tipHeight := some facts.tipHeight
      peerEpoch := facts.checkedRow.map RoleRow.epoch
      scanFromHeight := some facts.scan.fromHeight
      poolBlocks := some facts.scan.poolBlocks.length }

inductive TransferStep (i : NodeIndex) (n p : NodeState) : TransferPhase → TransferPhase → Prop where
  | observe (view : Option PeerView) (databaseNode : Option NodeIndex) :
      TransferStep i n p (.viewed view) (.observed view databaseNode (n.roles p))
  | check (view : Option PeerView) (databaseNode : Option NodeIndex) (roles : LatestRoles)
      (releaseDepth : U64) (scan : Transfer.ChainScan) (facts : Transfer.TransferFacts)
      (hfacts : facts = transferFacts i view databaseNode roles (p.journal.latestClaimOf n.synced)
        releaseDepth scan)
      (hpassed : Transfer.passed (Transfer.transferChecks facts) = true) :
      TransferStep i n p (.observed view databaseNode roles) (.checked facts)
  -- The peer's row once more: the very row the checks read live, and no claim.
  | reread (facts : Transfer.TransferFacts) (tail : RoleRow)
      (htail : p.journal.latest = some tail) (hlive : facts.peerRead.peerLive = some tail)
      (hfree : tail.carryOwner = false) :
      TransferStep i n p (.checked facts) (.reread facts tail)
  | unchanged (facts : Transfer.TransferFacts) (tail : RoleRow)
      (hown : n.journal.latest = facts.own) :
      TransferStep i n p (.reread facts tail) (.unchanged facts tail)

/-- An answer on which a node may seed its journal: the primary's, holding no row of it. -/
def seedAllowed : PeerRead → Bool
  | .answered _ none true => true
  | _ => false

/-- Whether a check needs the peer: only a node that claims ownership by setting and
journal does. -/
def needsPeer (i : NodeIndex) (setting : Bool) (databaseNode : Option NodeIndex)
    (roles : LatestRoles) : Bool :=
  databaseNode = some i && setting && claims roles.own

def guardInputs (i : NodeIndex) (setting : Bool) (databaseNode : Option NodeIndex)
    (roles : LatestRoles) (read : PeerRead) (layoutMismatch : Option String) : GuardInputs where
  nodeIndex := i
  databaseNode
  envOwner := setting
  own := roles.own
  peerSynced := roles.peer
  peerRead := read
  layoutMismatch

/-- The steps of node `i` that write no row of its journal. -/
inductive QuietStep (i : NodeIndex) (n p : NodeState) : NodeState → Prop where
  | sync (rows : ℕ) (hgrow : n.synced ≤ rows) (hheld : rows ≤ p.journal.rows.length) :
      QuietStep i n p { n with synced := rows }
  | restart (setting : Bool) :
      QuietStep i n p { n with setting, guard := {}, gate := false, check := .idle }
  | start (databaseNode : Option NodeIndex) (hidle : n.check = .idle) :
      QuietStep i n p { n with check := .reading databaseNode (n.roles p) none true }
  -- A failed local read: the gate stays as it is.
  | fail : QuietStep i n p { n with check := .idle }
  | askForSeed (roles : LatestRoles) (read : PeerRead) (fresh : Bool)
      (hcheck : n.check = .reading (some i) roles none fresh) (hown : roles.own = none)
      (hseen : n.guard.seenOwnRow = false) (hread : PeerAnswers n p read) :
      QuietStep i n p { n with check := .seedRead (some i) roles read fresh }
  | seedRefused (databaseNode : Option NodeIndex) (roles : LatestRoles) (read : PeerRead)
      (fresh : Bool) (hcheck : n.check = .seedRead databaseNode roles read fresh)
      (hseed : seedAllowed read = false) :
      QuietStep i n p { n with check := .reading databaseNode roles (some read) fresh }
  | seedPresent (databaseNode : Option NodeIndex) (roles : LatestRoles) (read : PeerRead)
      (fresh : Bool) (hcheck : n.check = .seedRead databaseNode roles read fresh)
      (hseed : seedAllowed read = true) (hrows : n.journal.rows ≠ []) :
      QuietStep i n p { n with check := .seeded databaseNode read fresh }
  | readAgain (databaseNode : Option NodeIndex) (read : PeerRead) (fresh : Bool)
      (hcheck : n.check = .seeded databaseNode read fresh) :
      QuietStep i n p { n with check := .reading databaseNode (n.roles p) (some read) fresh }
  | askNothing (databaseNode : Option NodeIndex) (roles : LatestRoles) (earlier : Option PeerRead)
      (fresh : Bool) (hcheck : n.check = .reading databaseNode roles earlier fresh)
      (hneeds : needsPeer i n.setting databaseNode roles = false) :
      QuietStep i n p { n with check := .asked databaseNode roles .failed fresh }
  | askEarlier (databaseNode : Option NodeIndex) (roles : LatestRoles) (read : PeerRead)
      (fresh : Bool) (hcheck : n.check = .reading databaseNode roles (some read) fresh)
      (hneeds : needsPeer i n.setting databaseNode roles = true) :
      QuietStep i n p { n with check := .asked databaseNode roles read fresh }
  | askPeer (databaseNode : Option NodeIndex) (roles : LatestRoles) (read : PeerRead)
      (fresh : Bool) (hcheck : n.check = .reading databaseNode roles none fresh)
      (hneeds : needsPeer i n.setting databaseNode roles = true) (hread : PeerAnswers n p read) :
      QuietStep i n p { n with check := .asked databaseNode roles read fresh }
  | decide (databaseNode : Option NodeIndex) (roles : LatestRoles) (read : PeerRead)
      (fresh : Bool) (layoutMismatch : Option String) (result : Guard × CarryDecision)
      (hcheck : n.check = .asked databaseNode roles read fresh)
      (hresult : result = n.guard.decide
        (guardInputs i n.setting databaseNode roles read layoutMismatch)) :
      QuietStep i n p { n with guard := result.1, check := .decided roles.own result.2 fresh }
  | setGate (own : Option RoleRow) (decision : CarryDecision) (fresh : Bool)
      (hcheck : n.check = .decided own decision fresh) :
      QuietStep i n p
        { n with gate := decision.isPaying, check := .idle, fullCheck := n.fullCheck || fresh }
  | beginTransfer (view : Option PeerView) (hview : view = none ∨ view = some (n.view p)) :
      QuietStep i n p { n with transfers := n.transfers ++ [.viewed view] }
  | stepTransfer (front back : List TransferPhase) (phase next : TransferPhase)
      (hphase : n.transfers = front ++ phase :: back) (hstep : TransferStep i n p phase next) :
      QuietStep i n p { n with transfers := front ++ next :: back }
  -- The peer's row is copied as the peer sync would copy it.
  | copyTail (front back : List TransferPhase) (facts : Transfer.TransferFacts) (tail : RoleRow)
      (rows : ℕ) (hphase : n.transfers = front ++ .unchanged facts tail :: back)
      (htail : p.journal.latestOf rows = some tail) :
      QuietStep i n p
        { n with synced := max n.synced rows, transfers := front ++ .copied facts :: back }

/-- The steps of node `i` that write a row of its journal: the node as the step leaves it
but for the row, and the row. Every one runs under the settlement lock. -/
inductive AppendStep (i : NodeIndex) (n p : NodeState) : NodeState → RoleRow → Prop where
  | seed (databaseNode : Option NodeIndex) (roles : LatestRoles) (read : PeerRead) (fresh : Bool)
      (epoch : ℤ) (hcheck : n.check = .seedRead databaseNode roles read fresh)
      (hseed : seedAllowed read = true) (hrows : n.journal.rows = []) :
      AppendStep i n p { n with check := .seeded databaseNode read fresh }
        (seedRow i epoch n.setting)
  | release (epoch : ℤ) (reason : String) (tip : U64)
      (howner : claims n.journal.latest = true) :
      AppendStep i n p n (releaseRow i epoch reason tip)
  | acquire (front back : List TransferPhase) (facts : Transfer.TransferFacts) (epoch : ℤ)
      (reason : String) (hphase : n.transfers = front ++ .copied facts :: back)
      (hown : n.journal.latest = facts.own)
      (hpeer : p.journal.latestOf n.synced = facts.checkedRow) :
      AppendStep i n p { n with transfers := front ++ back } (acquireRow i epoch reason facts)

/-- The two nodes, and how many rows were ever written. -/
structure Pair where
  node : NodeIndex → NodeState
  clock : ℕ

namespace Pair

def setNode (s : Pair) (i : NodeIndex) (n : NodeState) : Pair :=
  { s with node := Function.update s.node i n }

@[simp] theorem setNode_self (s : Pair) (i : NodeIndex) (n : NodeState) :
    (s.setNode i n).node i = n := by
  simp [setNode]

@[simp] theorem setNode_peer (s : Pair) (i : NodeIndex) (n : NodeState) :
    (s.setNode i n).node i.peer = s.node i.peer := by
  simp [setNode]

@[simp] theorem setNode_clock (s : Pair) (i : NodeIndex) (n : NodeState) :
    (s.setNode i n).clock = s.clock := rfl

end Pair

/-- Node `n` with `row` written at time `now`. -/
def NodeState.write (n : NodeState) (row : RoleRow) (now : ℕ)
    (hrise : ∀ earlier ∈ n.journal.rows, earlier.epoch < row.epoch) : NodeState :=
  { n with
    journal := n.journal.append row hrise
    check := n.check.overtaken
    fullCheck := false
    lastAppend := now }

/-- One step of either node. A new row's epoch is above every row its database holds. -/
inductive Step (s : Pair) : Pair → Prop where
  | quiet (i : NodeIndex) (n : NodeState) (hstep : QuietStep i (s.node i) (s.node i.peer) n) :
      Step s (s.setNode i n)
  | write (i : NodeIndex) (n : NodeState) (row : RoleRow)
      (hstep : AppendStep i (s.node i) (s.node i.peer) n row)
      (hrise : ∀ earlier ∈ n.journal.rows, earlier.epoch < row.epoch)
      (hheld : ∀ earlier ∈ (s.node i.peer).journal.rows.take n.synced, earlier.epoch < row.epoch) :
      Step s { s.setNode i (n.write row (s.clock + 1) hrise) with clock := s.clock + 1 }

def Pair.initial (setting : NodeIndex → Bool) : Pair where
  node i :=
    { journal := .empty
      synced := 0
      setting := setting i
      guard := {}
      gate := false
      check := .idle
      transfers := []
      fullCheck := false
      lastAppend := 0 }
  clock := 0

/-- Each guard completes at least one full check between two rows of its own node. -/
def Paced (s t : Pair) : Prop :=
  ∀ i, (t.node i).journal.rows ≠ (s.node i).journal.rows →
    (s.node i).journal.rows = [] ∨ (s.node i).fullCheck = true

/-- A run of the pair in which the guards keep pace with their journals. -/
def PacedRun (s t : Pair) : Prop :=
  Relation.ReflTransGen (fun s t => Step s t ∧ Paced s t) s t

end QbitPrism.CarryOwner
