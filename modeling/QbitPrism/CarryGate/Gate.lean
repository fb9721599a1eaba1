import Mathlib
import QbitPrism.Lib.Transition

/-!
# The carry gate, its fence and the offers

One frontend's carry gate: the guard's loop moves it and fences each move with a payout
revision bump, snapshots build work under it, and offers reserve and send found blocks. The
gate, the generation and the pending flag are separate atomics, so every read and write of one
is a step of its own; the database's locks decide which transactions wait.
-/
namespace QbitPrism.CarryGate

/-- The ledger's mode, and the `prior_balances_digest` of carry-free work. -/
structure Config (D : Type*) where
  dualWriter : Bool
  carryFreePriorDigest : D

variable {D : Type*} [DecidableEq D]

/-- Work built on a snapshot. `epoch` is history: how many times the gate had changed when the
snapshot read it. -/
structure Work (D : Type*) where
  payoutRevision : ℤ
  priorBalancesDigest : D
  epoch : ℕ

def carryFreeBlock (config : Config D) (dualWriter : Bool) (priorBalancesDigest : D) : Bool :=
  dualWriter && priorBalancesDigest == config.carryFreePriorDigest

def carryPayingNotCurrent (config : Config D) (gatePaying fencePending : Bool)
    (priorBalancesDigest : D) : Bool :=
  config.dualWriter && (!gatePaying || fencePending) &&
    !carryFreeBlock config config.dualWriter priorBalancesDigest

/-- The rest of `carry_paying_unsendable`, once the work was found current. -/
def carryGateMoved (config : Config D) (carryGateGeneration generation : ℕ)
    (priorBalancesDigest : D) : Bool :=
  config.dualWriter && !carryFreeBlock config true priorBalancesDigest &&
    carryGateGeneration != generation

/-- What became of a bump transaction the client asked to commit. -/
inductive Bump where
  | undecided
  | rolledBack
  | committed
deriving DecidableEq

/-- Where the guard's loop is in `set_carry_paying` and `fence_carry_change`. `bumped` records
whether the server lost the transaction, which the client learns from its commit only. -/
inductive GuardPhase where
  | idle
  | swapped
  | raised
  | fencing
  | locked
  | bumped (lost : Bool)
  | cleared (bump : Bump)
deriving DecidableEq

/-- The bump transaction holds `SETTLEMENT_LOCK`. -/
def GuardPhase.holdsSettlement : GuardPhase → Bool
  | .locked => true
  | .bumped lost => !lost
  | .cleared bump => bump = .undecided
  | _ => false

/-- The bump transaction has updated the cluster row and holds its lock. -/
def GuardPhase.holdsRow : GuardPhase → Bool
  | .bumped lost => !lost
  | .cleared bump => bump = .undecided
  | _ => false

def GuardPhase.trying : GuardPhase → Bool
  | .fencing => true
  | .locked => true
  | .bumped _ => true
  | _ => false

/-- A snapshot's transaction, which holds `SETTLEMENT_LOCK` and the cluster row. -/
inductive SnapshotPhase where
  | revision (payoutRevision : ℤ)
  | gate (payoutRevision : ℤ) (paying : Bool) (epoch : ℕ)

/-- The gate, the ledger's payout revision, the guard, the snapshot under way and the work
built. `changes` is history: how many times the gate has changed. -/
structure Gate (D : Type*) where
  payoutRevision : ℤ
  paying : Bool
  generation : ℕ
  fencePending : Bool
  guard : GuardPhase
  changes : ℕ
  snapshot : Option SnapshotPhase
  works : List (Work D)

def Gate.carryPaying (config : Config D) (gate : Gate D) : Bool :=
  !config.dualWriter || gate.paying

/-- The steps of the guard, of snapshots and of the ledger's other revision writers. `shared`
says that an offer holds the cluster row `FOR SHARE`. -/
inductive GateStep (config : Config D) (shared : Bool) (gate : Gate D) : Gate D → Prop where
  | change (paying : Bool) (hdual : config.dualWriter = true) (hguard : gate.guard = .idle)
      (hchange : gate.paying ≠ paying) :
      GateStep config shared gate
        { gate with paying, changes := gate.changes + 1, guard := .swapped }
  | raise (hguard : gate.guard = .swapped) :
      GateStep config shared gate
        { gate with generation := gate.generation + 1, guard := .raised }
  | pend (hguard : gate.guard = .raised) :
      GateStep config shared gate { gate with fencePending := true, guard := .fencing }
  -- The gate is as it was, or the loop retries the bump.
  | fence (hguard : gate.guard = .idle) :
      GateStep config shared gate { gate with guard := .fencing }
  | notPending (hguard : gate.guard = .fencing) (hflag : gate.fencePending = false) :
      GateStep config shared gate { gate with guard := .idle }
  | lock (hguard : gate.guard = .fencing) (hflag : gate.fencePending = true)
      (hfree : gate.snapshot.isNone) : GateStep config shared gate { gate with guard := .locked }
  | bump (hguard : gate.guard = .locked) (hrow : shared = false) :
      GateStep config shared gate { gate with guard := .bumped false }
  | fail (hguard : gate.guard.trying = true) : GateStep config shared gate { gate with guard := .idle }
  | lose (hguard : gate.guard = .bumped false) :
      GateStep config shared gate { gate with guard := .bumped true }
  | clear (lost : Bool) (hguard : gate.guard = .bumped lost) :
      GateStep config shared gate
        { gate with
          fencePending := false
          guard := .cleared (if lost then .rolledBack else .undecided) }
  | rollBack (hguard : gate.guard = .cleared .undecided) :
      GateStep config shared gate { gate with guard := .cleared .rolledBack }
  | commit (hguard : gate.guard = .cleared .undecided) :
      GateStep config shared gate
        { gate with payoutRevision := gate.payoutRevision + 1, guard := .cleared .committed }
  | seeCommit (hguard : gate.guard = .cleared .committed) :
      GateStep config shared gate { gate with guard := .idle }
  -- A commit whose reply is lost fails for the client too.
  | seeFailure (bump : Bump) (hguard : gate.guard = .cleared bump) (hbump : bump ≠ .undecided) :
      GateStep config shared gate { gate with fencePending := true, guard := .idle }
  | beginSnapshot (hsnapshot : gate.snapshot = none) (hfree : gate.guard.holdsSettlement = false)
      (hrow : shared = false) :
      GateStep config shared gate { gate with snapshot := some (.revision gate.payoutRevision) }
  | readGate (revision : ℤ) (hsnapshot : gate.snapshot = some (.revision revision)) :
      GateStep config shared gate
        { gate with snapshot := some (.gate revision (gate.carryPaying config) gate.changes) }
  -- The open gate reads the balances there are; a journal that claims nothing reads none.
  | endSnapshot (revision : ℤ) (paying : Bool) (epoch : ℕ) (digest : D)
      (hsnapshot : gate.snapshot = some (.gate revision paying epoch))
      (hdigest : paying = false → digest = config.carryFreePriorDigest) :
      GateStep config shared gate
        { gate with snapshot := none, works := gate.works ++ [⟨revision, digest, epoch⟩] }
  | dropSnapshot : GateStep config shared gate { gate with snapshot := none }
  | otherBump (hsnapshot : gate.snapshot = none) (hfree : gate.guard.holdsSettlement = false)
      (hrow : shared = false) :
      GateStep config shared gate { gate with payoutRevision := gate.payoutRevision + 1 }

/-- How far an offer has come. It holds the cluster row `FOR SHARE` from its revision read to
its reservation's commit. `epoch` is history: how many times the gate had changed by then. -/
inductive OfferPhase where
  | start
  | generation (generation : ℕ)
  | revision (generation : ℕ) (observedRevision : ℤ)
  | gate (generation : ℕ) (observedRevision : ℤ) (paying : Bool)
  | reserving (generation : ℕ)
  -- The capture path: held to the overpay bound, or abandoned.
  | capture
  | reserved (generation epoch : ℕ)
  | sendGate (generation epoch : ℕ) (paying : Bool)
  | sendGeneration (generation epoch : ℕ)
  | returned
  | sent (epoch : ℕ)
  | reservedLeased
  | sentLeased

def OfferPhase.shares : OfferPhase → Bool
  | .revision _ _ => true
  | .gate _ _ _ => true
  | .reserving _ => true
  | _ => false

/-- The offer of a block found on `work`. -/
structure Offer (D : Type*) where
  work : Work D
  leased : Bool
  phase : OfferPhase

/-- The steps of one offer but for its reservation's read of the flag. -/
inductive OfferStep (config : Config D) (gate : Gate D) (offer : Offer D) : OfferPhase → Prop where
  | readGeneration (hphase : offer.phase = .start) :
      OfferStep config gate offer (.generation gate.generation)
  | readRevision (generation : ℕ) (hphase : offer.phase = .generation generation)
      (hleased : offer.leased = false) (hrow : gate.guard.holdsRow = false)
      (hsnapshot : gate.snapshot = none) :
      OfferStep config gate offer (.revision generation gate.payoutRevision)
  | readGate (generation : ℕ) (observed : ℤ) (hphase : offer.phase = .revision generation observed) :
      OfferStep config gate offer (.gate generation observed (gate.carryPaying config))
  | reserve (generation : ℕ) (hphase : offer.phase = .reserving generation) :
      OfferStep config gate offer (.reserved generation gate.changes)
  | sendGate (generation epoch : ℕ) (hphase : offer.phase = .reserved generation epoch) :
      OfferStep config gate offer (.sendGate generation epoch (gate.carryPaying config))
  | sendFlag (generation epoch : ℕ) (paying : Bool)
      (hphase : offer.phase = .sendGate generation epoch paying) :
      OfferStep config gate offer
        (if carryPayingNotCurrent config paying gate.fencePending offer.work.priorBalancesDigest then
          .returned
        else .sendGeneration generation epoch)
  | send (generation epoch : ℕ) (hphase : offer.phase = .sendGeneration generation epoch) :
      OfferStep config gate offer
        (if carryGateMoved config gate.generation generation offer.work.priorBalancesDigest then
          .returned
        else .sent epoch)
  -- A leased candidate is reserved without a revision check and sent without a send check.
  | reserveLeased (generation : ℕ) (hphase : offer.phase = .generation generation)
      (hleased : offer.leased = true) : OfferStep config gate offer .reservedLeased
  | sendLeased (hphase : offer.phase = .reservedLeased) : OfferStep config gate offer .sentLeased

/-- The reservation's read of the flag and its decision: current work is reserved as such. -/
def reservation (config : Config D) (gate : Gate D) (work : Work D) (generation : ℕ)
    (observed : ℤ) (paying : Bool) : OfferPhase :=
  if observed = work.payoutRevision ∧
      carryPayingNotCurrent config paying gate.fencePending work.priorBalancesDigest = false then
    .reserving generation
  else .capture

structure System (D : Type*) where
  gate : Gate D
  offers : List (Offer D)

def System.shared (s : System D) : Bool :=
  s.offers.any (·.phase.shares)

/-- The steps but for the reservations' reads of the flag. An offer may end at any point. -/
inductive Step (config : Config D) (s : System D) : System D → Prop where
  | gate (gate : Gate D) (hstep : GateStep config s.shared s.gate gate) :
      Step config s { s with gate }
  | begin (work : Work D) (leased : Bool) (hwork : work ∈ s.gate.works) :
      Step config s { s with offers := s.offers ++ [⟨work, leased, .start⟩] }
  | offer (front back : List (Offer D)) (offer : Offer D) (phase : OfferPhase)
      (hoffers : s.offers = front ++ offer :: back) (hstep : OfferStep config s.gate offer phase) :
      Step config s { s with offers := front ++ { offer with phase } :: back }
  | drop (front back : List (Offer D)) (offer : Offer D)
      (hoffers : s.offers = front ++ offer :: back) : Step config s { s with offers := front ++ back }

inductive ReadFlag (config : Config D) (s : System D) : System D → Prop where
  | intro (front back : List (Offer D)) (offer : Offer D) (generation : ℕ) (observed : ℤ)
      (paying : Bool) (hoffers : s.offers = front ++ offer :: back)
      (hphase : offer.phase = .gate generation observed paying) :
      ReadFlag config s
        { s with
          offers := front ++
            { offer with phase := reservation config s.gate offer.work generation observed paying } ::
              back }

def System.initial (payoutRevision : ℤ) : System D where
  gate :=
    { payoutRevision
      paying := false
      generation := 0
      fencePending := false
      guard := .idle
      changes := 0
      snapshot := none
      works := [] }
  offers := []

def Reachable (config : Config D) (payoutRevision : ℤ) (s : System D) : Prop :=
  Relation.ReflTransGen (fun s t => Step config s t ∨ ReadFlag config s t) (.initial payoutRevision) s

/-- Carry-paying work, taken before a gate change, was reserved after it as current work and
passed its send check. -/
def System.Unfenced (config : Config D) (s : System D) : Prop :=
  ∃ offer ∈ s.offers, ∃ epoch, offer.phase = .sent epoch ∧
    offer.work.priorBalancesDigest ≠ config.carryFreePriorDigest ∧ offer.work.epoch < epoch

end QbitPrism.CarryGate
