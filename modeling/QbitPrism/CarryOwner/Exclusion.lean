import Mathlib
import QbitPrism.CarryOwner.Protocol

/-!
# At most one node pays carried balances

A guard that is confirmed, or whose gate is open, holds a claim older than any claim the
peer holds: the peer's claim was written after this node's claim was read. Both gates
open over two claims would make each claim older than the other.
-/
namespace QbitPrism.CarryOwner
open List

/-- If both nodes claim ownership, this node's claim is the older one. -/
def Cleared (n p : NodeState) : Prop :=
  claims n.journal.latest = true → claims p.journal.latest = true → n.lastAppend < p.lastAppend

def ReadFrom (journal : Journal) (row : Option RoleRow) : Prop :=
  ∀ r, row = some r → r ∈ journal.rows

/-- What an unfinished check has read, and what that allows it to conclude. -/
def CheckInv (n p : NodeState) : CheckPhase → Prop
  | .idle => True
  | .reading _ roles earlier fresh =>
    ReadFrom n.journal roles.own ∧ ReadFrom p.journal roles.peer ∧
    (fresh = true → roles.own = n.journal.latest) ∧
    (roles.own = none → n.journal.rows.length ≤ 1) ∧
    ∀ read, earlier = some read → claims roles.own = true → Confirms roles.peer read →
      Cleared n p
  | .seedRead _ roles read fresh =>
    roles.own = none ∧ ReadFrom p.journal read.peerLive ∧ ReadFrom p.journal roles.peer ∧
    (fresh = true → n.journal.rows = []) ∧ n.journal.rows.length ≤ 1
  | .seeded _ read fresh =>
    ReadFrom p.journal read.peerLive ∧
    (fresh = true → n.journal.rows = []) ∧ n.journal.rows.length ≤ 1
  | .asked _ roles read fresh =>
    ReadFrom n.journal roles.own ∧ (fresh = true → roles.own = n.journal.latest) ∧
    (claims roles.own = true → Confirms roles.peer read → Cleared n p)
  | .decided own decision fresh =>
    ReadFrom n.journal own ∧ (fresh = true → own = n.journal.latest) ∧
    decision.isPaying = n.guard.peerConfirmed ∧
    (n.guard.peerConfirmed = true → claims own = true)

/-- The rows a transfer has read are the peer's, and its checks passed on them. -/
def TransferInv (p : NodeState) : TransferPhase → Prop
  | .viewed view => ∀ v, view = some v → ReadFrom p.journal v.latest.peer
  | .observed view _ roles =>
    (∀ v, view = some v → ReadFrom p.journal v.latest.peer) ∧ ReadFrom p.journal roles.peer
  | .checked facts | .reread facts _ | .unchanged facts _ | .copied facts =>
    Transfer.passed (Transfer.transferChecks facts) = true ∧
    ReadFrom p.journal facts.peerRead.peerLive ∧ ReadFrom p.journal facts.peerSynced

def CheckPhase.isFresh : CheckPhase → Bool
  | .idle => true
  | .reading _ _ _ fresh | .seedRead _ _ _ fresh | .seeded _ _ fresh | .asked _ _ _ fresh
  | .decided _ _ fresh => fresh

/-- The node has no claim its guard could still act on. -/
def Settled (n : NodeState) : Prop :=
  n.journal.rows = [] ∨ (n.fullCheck = true ∧ claims n.journal.latest = false)

/-- What holds of node `n` with peer `p` at time `now`. -/
structure NodeInv (n p : NodeState) (now : ℕ) : Prop where
  written : n.lastAppend ≤ now
  later_claims : ∀ row ∈ n.journal.rows.tail, row.carryOwner = true → row.action = .acquire
  acquired : ∀ row ∈ n.journal.rows, row.action = .acquire →
    ∃ free ∈ p.journal.rows, free.carryOwner = false
  check : CheckInv n p n.check
  transfers : ∀ phase ∈ n.transfers, TransferInv p phase
  paced : n.fullCheck = true → n.check.isFresh = true
  confirmed : n.guard.peerConfirmed = true → Cleared n p
  gate : n.gate = true → Cleared n p
  settled : Settled n → n.guard.peerConfirmed = false ∧ n.gate = false

def Inv (s : Pair) : Prop :=
  ∀ i, NodeInv (s.node i) (s.node i.peer) s.clock

theorem ReadFrom.latest (journal : Journal) : ReadFrom journal journal.latest :=
  fun _ h => Journal.latest_mem h

theorem ReadFrom.latestOf (journal : Journal) (n : ℕ) : ReadFrom journal (journal.latestOf n) :=
  fun _ h => Journal.latestOf_mem h

theorem ReadFrom.none (journal : Journal) : ReadFrom journal none :=
  fun _ h => by cases h

variable {n p : NodeState} {read : PeerRead}

theorem PeerAnswers.readFrom (h : PeerAnswers n p read) : ReadFrom p.journal read.peerLive := by
  cases h with
  | failed => exact ReadFrom.none _
  | primary => exact ReadFrom.latest _
  | fallback peerRows ownRows => exact ReadFrom.latestOf _ _

theorem Cleared.of_peer_free (h : claims p.journal.latest = false) : Cleared n p := by
  intro _ hpeer
  rw [h] at hpeer
  cases hpeer

theorem Cleared.of_free (h : claims n.journal.latest = false) : Cleared n p := by
  intro hown _
  rw [h] at hown
  cases hown

theorem PeerAnswers.cleared {synced : Option RoleRow} (h : PeerAnswers n p read)
    (hconfirms : Confirms synced read) : Cleared n p := by
  obtain ⟨peer, ownAtPeer, hread, hfree, _⟩ := hconfirms
  cases h with
  | failed => cases hread
  | primary =>
    obtain ⟨rfl, -⟩ := PeerRead.answered.inj hread
    exact Cleared.of_peer_free hfree
  | fallback peerRows ownRows => simp at hread

variable {now : ℕ}

theorem NodeInv.free_of_no_acquire (h : NodeInv n p now) (hnone : ∀ row ∈ n.journal.rows, row.action ≠ .acquire)
    {free : RoleRow} (hmem : free ∈ n.journal.rows) (hfree : free.carryOwner = false) :
    claims n.journal.latest = false := by
  cases hlatest : n.journal.latest with
  | none => rfl
  | some latest =>
    by_contra hclaim
    have hclaims : latest.carryOwner = true := by simpa using hclaim
    obtain ⟨front, hfront⟩ := List.getLast?_eq_some_iff.mp hlatest
    cases front with
    | nil =>
      rw [hfront] at hmem
      have hsame : free = latest := by simpa using hmem
      rw [hsame, hclaims] at hfree
      cases hfree
    | cons first rest =>
      have htail : latest ∈ n.journal.rows.tail := by simp [hfront]
      exact hnone latest (mem_of_mem_tail htail) (h.later_claims latest htail hclaims)

theorem NodeInv.cleared_of_first_claim (hpeer : NodeInv p n now) (hlen : n.journal.rows.length ≤ 1)
    (hown : claims n.journal.latest = true) {free : RoleRow} (hmem : free ∈ p.journal.rows)
    (hfree : free.carryOwner = false) : Cleared n p := by
  apply Cleared.of_peer_free
  apply hpeer.free_of_no_acquire _ hmem hfree
  intro row hrow hacquire
  obtain ⟨read, hread, hreadFree⟩ := hpeer.acquired row hrow hacquire
  cases hlatest : n.journal.latest with
  | none => simp [hlatest] at hown
  | some latest =>
    obtain ⟨front, hfront⟩ := List.getLast?_eq_some_iff.mp hlatest
    have hnil : front = [] := by
      rw [hfront] at hlen
      apply eq_nil_of_length_eq_zero
      simpa using hlen
    rw [hfront, hnil] at hread
    have hsame : read = latest := by simpa using hread
    rw [hlatest, claims_some, ← hsame, hreadFree] at hown
    cases hown

variable {p' : NodeState}

theorem CheckInv.peer_mono {phase : CheckPhase} (h : CheckInv n p phase)
    (hrows : ∀ row ∈ p.journal.rows, row ∈ p'.journal.rows) (hcleared : Cleared n p → Cleared n p') :
    CheckInv n p' phase := by
  have hread : ∀ row, ReadFrom p.journal row → ReadFrom p'.journal row :=
    fun row hrow r hr => hrows r (hrow r hr)
  cases phase with
  | idle => trivial
  | reading databaseNode roles earlier fresh =>
    obtain ⟨hown, hpeer, hfresh, hfirst, hearlier⟩ := h
    refine ⟨hown, hread _ hpeer, hfresh, hfirst, ?_⟩
    intro read he hclaims hconfirms
    exact hcleared (hearlier read he hclaims hconfirms)
  | seedRead databaseNode roles read fresh =>
    obtain ⟨hown, hlive, hpeer, hfresh⟩ := h
    exact ⟨hown, hread _ hlive, hread _ hpeer, hfresh⟩
  | seeded databaseNode read fresh => exact ⟨hread _ h.1, h.2⟩
  | asked databaseNode roles read fresh =>
    obtain ⟨hown, hfresh, hconfirmed⟩ := h
    refine ⟨hown, hfresh, ?_⟩
    intro hclaims hconfirms
    exact hcleared (hconfirmed hclaims hconfirms)
  | decided own decision fresh => exact h

variable {phase : TransferPhase}

theorem TransferInv.peer_mono (h : TransferInv p phase)
    (hrows : ∀ row ∈ p.journal.rows, row ∈ p'.journal.rows) : TransferInv p' phase := by
  have hread : ∀ row, ReadFrom p.journal row → ReadFrom p'.journal row :=
    fun row hrow r hr => hrows r (hrow r hr)
  cases phase with
  | viewed view => exact fun v hv => hread _ (h v hv)
  | observed view databaseNode roles =>
    exact ⟨fun v hv => hread _ (h.1 v hv), hread _ h.2⟩
  | checked | reread | unchanged | copied => exact ⟨h.1, hread _ h.2.1, hread _ h.2.2⟩

theorem NodeInv.peer_mono {later : ℕ} (h : NodeInv n p now) (hnow : now ≤ later)
    (hrows : ∀ row ∈ p.journal.rows, row ∈ p'.journal.rows) (hcleared : Cleared n p → Cleared n p') :
    NodeInv n p' later :=
  { h with
    written := h.written.trans hnow
    acquired := by
      intro row hrow hacquire
      obtain ⟨free, hmem, hfree⟩ := h.acquired row hrow hacquire
      exact ⟨free, hrows free hmem, hfree⟩
    check := h.check.peer_mono hrows hcleared
    transfers := fun phase hphase => (h.transfers phase hphase).peer_mono hrows
    confirmed := fun hconfirmed => hcleared (h.confirmed hconfirmed)
    gate := fun hgate => hcleared (h.gate hgate) }

theorem NodeInv.set_check (h : NodeInv n p now) (phase : CheckPhase) (hcheck : CheckInv n p phase)
    (hpaced : n.fullCheck = true → phase.isFresh = true) :
    NodeInv { n with check := phase } p now :=
  { h with
    check := by cases phase <;> exact hcheck
    paced := hpaced }

theorem NodeInv.set_transfers (h : NodeInv n p now) (synced : ℕ) (transfers : List TransferPhase)
    (htransfers : ∀ phase ∈ transfers, TransferInv p phase) :
    NodeInv { n with synced, transfers } p now :=
  { h with
    check := by
      have hcheck := h.check
      revert hcheck
      cases n.check <;> exact id
    transfers := htransfers }

variable {fresh : Bool} {databaseNode : Option NodeIndex} {own : Option RoleRow} {next : TransferPhase}

theorem CheckInv.readAgain (hp : NodeInv p n now) (h : CheckInv n p (.seeded databaseNode read fresh)) :
    CheckInv n p (.reading databaseNode (n.roles p) (some read) fresh) := by
  obtain ⟨hlive, -, hlen⟩ := h
  refine ⟨ReadFrom.latest _, ReadFrom.latestOf _ _, fun _ => rfl, fun _ => hlen, ?_⟩
  intro read' hread hclaims hconfirms
  cases hread
  obtain ⟨peer, ownAtPeer, rfl, -, row, hrow, hfree⟩ := hconfirms
  have hmem : row ∈ p.journal.rows := by
    rcases newestRow_mem hrow with hfrom | hfrom
    · exact hlive row hfrom
    · exact Journal.latestOf_mem hfrom
  exact hp.cleared_of_first_claim hlen hclaims hmem hfree

theorem NodeInv.no_claim_read (h : NodeInv n p now) (hsettled : Settled n) (hphase : n.check.isFresh = fresh)
    (hfrom : ReadFrom n.journal own) (hfresh : fresh = true → own = n.journal.latest) : claims own = false := by
  rcases hsettled with hempty | ⟨hfull, hfree⟩
  · cases hown : own with
    | none => rfl
    | some row =>
      have hmem := hfrom row hown
      rw [hempty] at hmem
      cases hmem
  · rw [hfresh (hphase ▸ h.paced hfull), hfree]

theorem NodeInv.decide (h : NodeInv n p now) {roles : LatestRoles}
    (hcheck : n.check = .asked databaseNode roles read fresh) {inputs : GuardInputs} (hown : inputs.own = roles.own)
    (hsynced : inputs.peerSynced = roles.peer) (hread : inputs.peerRead = read) :
    NodeInv
      { n with
        guard := (n.guard.decide inputs).1
        check := .decided roles.own (n.guard.decide inputs).2 fresh } p now := by
  obtain ⟨hfrom, hfresh, hcleared⟩ : CheckInv n p (.asked databaseNode roles read fresh) :=
    hcheck ▸ h.check
  have hconfirmed : (n.guard.decide inputs).1.peerConfirmed = true → claims roles.own = true ∧
      (n.guard.peerConfirmed = true ∨ Confirms roles.peer read) := by
    intro hafter
    rw [← hown, ← hsynced, ← hread]
    exact Guard.decide_confirmed hafter
  exact
    { h with
      check :=
        ⟨hfrom, hfresh, Guard.decide_isPaying _ _, fun hafter => (hconfirmed hafter).1⟩
      paced := by
        intro hfull
        have hpaced := h.paced hfull
        rw [hcheck] at hpaced
        exact hpaced
      confirmed := by
        intro hafter
        obtain ⟨hclaims, hbefore | hnow⟩ := hconfirmed hafter
        · exact h.confirmed hbefore
        · exact hcleared hclaims hnow
      settled := by
        intro hsettled
        refine ⟨?_, (h.settled hsettled).2⟩
        by_contra hafter
        obtain ⟨hclaims, -⟩ := hconfirmed (by simpa using hafter)
        have hnone := h.no_claim_read hsettled (by rw [hcheck]; rfl) hfrom hfresh
        rw [hnone] at hclaims
        cases hclaims }

theorem NodeInv.setGate (h : NodeInv n p now) {decision : CarryDecision}
    (hcheck : n.check = .decided own decision fresh) :
    NodeInv
      { n with gate := decision.isPaying, check := .idle, fullCheck := n.fullCheck || fresh }
      p now := by
  obtain ⟨-, hfresh, hpaying, hclaims⟩ : CheckInv n p (.decided own decision fresh) :=
    hcheck ▸ h.check
  exact
    { h with
      check := trivial
      paced := fun _ => rfl
      gate := fun hgate => h.confirmed (hpaying ▸ hgate)
      settled := by
        intro hsettled
        have hfree : n.guard.peerConfirmed = false := by
          by_cases hbefore : Settled n
          · exact (h.settled hbefore).1
          · by_contra hconfirmed
            rcases hsettled with hempty | ⟨hfull, hfree⟩
            · exact hbefore (Or.inl hempty)
            · rcases Bool.or_eq_true_iff.mp hfull with hfull | hnow
              · exact hbefore (Or.inr ⟨hfull, hfree⟩)
              · have howner := hclaims (by simpa using hconfirmed)
                have hnone : claims own = false := by rw [hfresh hnow]; exact hfree
                rw [hnone] at howner
                cases howner
        exact ⟨hfree, hpaying.trans hfree⟩ }

variable {i : NodeIndex}

theorem TransferInv.step (h : TransferInv p phase) (hstep : TransferStep i n p phase next) : TransferInv p next := by
  cases hstep with
  | observe view databaseNode => exact ⟨h, ReadFrom.latestOf _ _⟩
  | check view databaseNode roles releaseDepth scan facts hfacts hpassed =>
    refine ⟨hpassed, ?_, ?_⟩
    · subst hfacts
      cases view with
      | none => exact ReadFrom.none _
      | some view => exact h.1 view rfl
    · subst hfacts
      exact h.2
  | reread | unchanged => exact h

theorem NodeInv.replace_transfer (h : NodeInv n p now) {front back : List TransferPhase}
    (hphase : n.transfers = front ++ phase :: back) (hnext : TransferInv p phase → TransferInv p next) :
    ∀ t ∈ front ++ next :: back, TransferInv p t := by
  have hall := h.transfers
  rw [hphase] at hall
  intro t ht
  rcases mem_append.mp ht with hfront | hrest
  · exact hall t (mem_append_left _ hfront)
  · rcases mem_cons.mp hrest with heq | hback
    · subst heq
      exact hnext (hall phase (by simp))
    · exact hall t (by simp [hback])

variable {n' : NodeState}

theorem NodeInv.quietStep (h : NodeInv n p now) (hp : NodeInv p n now) (hstep : QuietStep i n p n') :
    NodeInv n' p now := by
  have hcheck := h.check
  have hpaced := h.paced
  cases hstep with
  | sync rows hgrow hheld => exact h.set_transfers rows n.transfers h.transfers
  | restart setting =>
    exact
      { h with
        check := trivial
        paced := fun _ => rfl
        confirmed := nofun
        gate := nofun
        settled := fun _ => ⟨rfl, rfl⟩ }
  | start databaseNode hidle =>
    apply h.set_check
    · refine ⟨ReadFrom.latest _, ReadFrom.latestOf _ _, fun _ => rfl, ?_, ?_⟩
      · intro hnone
        simp [Journal.latest_eq_none.mp hnone]
      · intro read hread
        cases hread
    · exact fun _ => rfl
  | fail => exact h.set_check .idle trivial (fun _ => rfl)
  | askForSeed roles read fresh hphase hown hseen hread =>
    rw [hphase] at hcheck hpaced
    obtain ⟨-, hpeer, hfresh, hfirst, -⟩ := hcheck
    refine h.set_check _ ⟨hown, hread.readFrom, hpeer, ?_, hfirst hown⟩ hpaced
    intro hnow
    exact Journal.latest_eq_none.mp ((hfresh hnow).symm.trans hown)
  | seedRefused databaseNode roles read fresh hphase hseed =>
    rw [hphase] at hcheck hpaced
    obtain ⟨hown, -, hpeer, hfresh, hlen⟩ := hcheck
    refine h.set_check _ ⟨?_, hpeer, ?_, fun _ => hlen, ?_⟩ hpaced
    · rw [hown]
      exact ReadFrom.none _
    · intro hnow
      rw [hown, Journal.latest_eq_none.mpr (hfresh hnow)]
    · intro read' _ hclaims
      simp [hown] at hclaims
  | seedPresent databaseNode roles read fresh hphase hseed hrows =>
    rw [hphase] at hcheck hpaced
    obtain ⟨-, hlive, -, hfresh, hlen⟩ := hcheck
    exact h.set_check _ ⟨hlive, hfresh, hlen⟩ hpaced
  | readAgain databaseNode read fresh hphase =>
    rw [hphase] at hcheck hpaced
    exact h.set_check _ (hcheck.readAgain hp) hpaced
  | askNothing databaseNode roles earlier fresh hphase hneeds =>
    rw [hphase] at hcheck hpaced
    obtain ⟨hown, -, hfresh, -⟩ := hcheck
    refine h.set_check _ ⟨hown, hfresh, ?_⟩ hpaced
    rintro - ⟨peer, ownAtPeer, hread, -⟩
    cases hread
  | askEarlier databaseNode roles read fresh hphase hneeds =>
    rw [hphase] at hcheck hpaced
    obtain ⟨hown, -, hfresh, -, hearlier⟩ := hcheck
    exact h.set_check _ ⟨hown, hfresh, hearlier read rfl⟩ hpaced
  | askPeer databaseNode roles read fresh hphase hneeds hread =>
    rw [hphase] at hcheck hpaced
    obtain ⟨hown, -, hfresh, -⟩ := hcheck
    exact h.set_check _ ⟨hown, hfresh, fun _ => hread.cleared⟩ hpaced
  | decide databaseNode roles read fresh layoutMismatch result hphase hresult =>
    subst hresult
    exact h.decide hphase rfl rfl rfl
  | setGate own decision fresh hphase => exact h.setGate hphase
  | beginTransfer view hview =>
    apply h.set_transfers n.synced
    intro phase hmem
    rcases mem_append.mp hmem with hold | hnew
    · exact h.transfers phase hold
    · obtain rfl := mem_singleton.mp hnew
      intro v hv
      rcases hview with hnone | hsome
      · rw [hnone] at hv
        cases hv
      · obtain rfl := Option.some.inj (hsome.symm.trans hv)
        exact ReadFrom.latest _
  | stepTransfer front back phase next hphase hnext =>
    apply h.set_transfers n.synced
    exact h.replace_transfer hphase (fun hold => hold.step hnext)
  | copyTail front back facts tail rows hphase htail =>
    apply h.set_transfers
    exact h.replace_transfer hphase id

variable {row : RoleRow}

theorem settled_of_paced (hpaced : n.journal.rows = [] ∨ n.fullCheck = true)
    (hclaim : row.carryOwner = true → claims n.journal.latest = false)
    (hrow : row.carryOwner = true) : Settled n := by
  rcases hpaced with hempty | hfull
  · exact Or.inl hempty
  · exact Or.inr ⟨hfull, hclaim hrow⟩

theorem ReadFrom.append {journal : Journal} {read : Option RoleRow}
    (hrise : ∀ earlier ∈ journal.rows, earlier.epoch < row.epoch) (h : ReadFrom journal read) :
    ReadFrom (journal.append row hrise) read := by
  intro r hr
  exact mem_append_left _ (h r hr)

theorem CheckInv.overtaken (h : NodeInv n p now) (hrise : ∀ earlier ∈ n.journal.rows, earlier.epoch < row.epoch)
    (hpaced : n.journal.rows = [] ∨ n.fullCheck = true)
    (hclaim : row.carryOwner = true → claims n.journal.latest = false) (later : ℕ) :
    CheckInv (n.write row later hrise) p n.check.overtaken := by
  have hcheck := h.check
  have hfull := h.paced
  -- A check that had read no row of its node can be overtaken only by the first.
  have hfirst : (n.check.isFresh = true → n.journal.rows = []) →
      (n.journal.rows ++ [row]).length ≤ 1 := by
    intro hfresh
    have hempty : n.journal.rows = [] := by
      rcases hpaced with hempty | hdone
      · exact hempty
      · exact hfresh (hfull hdone)
    simp [hempty]
  have hcleared : ∀ own : Option RoleRow, ReadFrom n.journal own →
      (n.check.isFresh = true → own = n.journal.latest) → claims own = true →
      Cleared (n.write row later hrise) p := by
    intro own hfrom hfresh hclaims
    apply Cleared.of_free
    by_contra hrow
    have hsettled := settled_of_paced hpaced hclaim (by simpa [NodeState.write] using hrow)
    rw [h.no_claim_read hsettled rfl hfrom hfresh] at hclaims
    cases hclaims
  cases hphase : n.check with
  | idle => trivial
  | reading databaseNode roles earlier fresh =>
    rw [hphase] at hcheck hfirst hcleared
    obtain ⟨hown, hpeer, hfresh, -, -⟩ := hcheck
    refine ⟨hown.append hrise, hpeer, (absurd · Bool.false_ne_true), ?_, ?_⟩
    · intro hnone
      apply hfirst
      intro hnow
      exact Journal.latest_eq_none.mp ((hfresh hnow).symm.trans hnone)
    · intro _ _ hclaims _
      exact hcleared roles.own hown hfresh hclaims
  | seedRead databaseNode roles read fresh =>
    rw [hphase] at hcheck hfirst
    obtain ⟨hown, hlive, hpeer, hfresh, -⟩ := hcheck
    exact ⟨hown, hlive, hpeer, (absurd · Bool.false_ne_true), hfirst hfresh⟩
  | seeded databaseNode read fresh =>
    rw [hphase] at hcheck hfirst
    exact ⟨hcheck.1, (absurd · Bool.false_ne_true), hfirst hcheck.2.1⟩
  | asked databaseNode roles read fresh =>
    rw [hphase] at hcheck hcleared
    obtain ⟨hown, hfresh, -⟩ := hcheck
    refine ⟨hown.append hrise, (absurd · Bool.false_ne_true), ?_⟩
    intro hclaims _
    exact hcleared roles.own hown hfresh hclaims
  | decided own decision fresh =>
    rw [hphase] at hcheck
    obtain ⟨hown, -, hpaying⟩ := hcheck
    exact ⟨hown.append hrise, (absurd · Bool.false_ne_true), hpaying⟩

theorem NodeInv.write (h : NodeInv n p now) (hrise : ∀ earlier ∈ n.journal.rows, earlier.epoch < row.epoch)
    (hpaced : n.journal.rows = [] ∨ n.fullCheck = true)
    (hclaim : row.carryOwner = true → claims n.journal.latest = false)
    (hlater : n.journal.rows ≠ [] → row.carryOwner = true → row.action = .acquire)
    (hacquire : row.action = .acquire → ∃ free ∈ p.journal.rows, free.carryOwner = false) :
    NodeInv (n.write row (now + 1) hrise) p (now + 1) := by
  have hcleared : n.guard.peerConfirmed = true ∨ n.gate = true →
      Cleared (n.write row (now + 1) hrise) p := by
    intro hopen
    apply Cleared.of_free
    by_contra hrow
    have hsettled := settled_of_paced hpaced hclaim (by simpa [NodeState.write] using hrow)
    obtain ⟨hconfirmed, hgate⟩ := h.settled hsettled
    simp [hconfirmed, hgate] at hopen
  exact
    { h with
      written := le_rfl
      later_claims := by
        intro later hmem hclaims
        cases hrows : n.journal.rows with
        | nil => simp [NodeState.write, hrows] at hmem
        | cons first rest =>
          have hmem' : later ∈ rest ∨ later = row := by
            simpa [NodeState.write, hrows] using hmem
          rcases hmem' with hold | rfl
          · exact h.later_claims later (by simpa [hrows] using hold) hclaims
          · exact hlater (by simp [hrows]) hclaims
      acquired := by
        intro later hmem haction
        have hmem' : later ∈ n.journal.rows ∨ later = row := by
          simpa [NodeState.write] using hmem
        rcases hmem' with hold | rfl
        · exact h.acquired later hold haction
        · exact hacquire haction
      check := CheckInv.overtaken h hrise hpaced hclaim _
      paced := (absurd · Bool.false_ne_true)
      confirmed := fun hconfirmed => hcleared (Or.inl hconfirmed)
      gate := fun hgate => hcleared (Or.inr hgate)
      settled := by
        rintro (hempty | ⟨hfull, -⟩)
        · simp [NodeState.write] at hempty
        · cases hfull }

theorem NodeInv.appendStep (h : NodeInv n p now) (hstep : AppendStep i n p n' row)
    (hpaced : n.journal.rows = [] ∨ n.fullCheck = true)
    (hrise : ∀ earlier ∈ n'.journal.rows, earlier.epoch < row.epoch) :
    NodeInv (n'.write row (now + 1) hrise) p (now + 1) := by
  cases hstep with
  | seed databaseNode roles read fresh epoch hphase hseed hrows =>
    have hcheck := h.check
    have hfull := h.paced
    rw [hphase] at hcheck hfull
    obtain ⟨-, hlive, -, hfresh, hlen⟩ := hcheck
    have hseeded := h.set_check (.seeded databaseNode read fresh) ⟨hlive, hfresh, hlen⟩ hfull
    apply hseeded.write hrise hpaced
    · intro _
      rw [Journal.latest_eq_none.mpr hrows]
      rfl
    · intro hne
      exact absurd hrows hne
    · intro haction
      cases haction
  | release epoch reason tip howner =>
    apply h.write hrise hpaced <;> nofun
  | acquire front back facts epoch reason hphase hown hpeer =>
    obtain ⟨hpassed, hlive, hsynced⟩ : TransferInv p (.copied facts) :=
      h.transfers _ (by simp [hphase])
    obtain ⟨hfree, -, free, hnewest, hfreeRow⟩ := Transfer.passed_transferChecks hpassed
    have hrest : ∀ phase ∈ front ++ back, TransferInv p phase := by
      intro phase hmem
      apply h.transfers
      rw [hphase]
      rcases mem_append.mp hmem with hfront | hback
      · exact mem_append_left _ hfront
      · simp [hback]
    apply (h.set_transfers n.synced _ hrest).write hrise hpaced
    · intro _
      show claims n.journal.latest = false
      rw [hown, hfree]
    · exact fun _ _ => rfl
    · intro _
      rcases newestRow_mem hnewest with hfrom | hfrom
      · exact ⟨free, hlive free hfrom, hfreeRow⟩
      · exact ⟨free, hsynced free hfrom, hfreeRow⟩

theorem inv_initial (setting : NodeIndex → Bool) : Inv (Pair.initial setting) := by
  intro i
  exact
    { written := le_rfl
      later_claims := by simp [Pair.initial, Journal.empty]
      acquired := by simp [Pair.initial, Journal.empty]
      check := trivial
      transfers := by simp [Pair.initial]
      paced := by simp [Pair.initial]
      confirmed := by simp [Pair.initial]
      gate := by simp [Pair.initial]
      settled := fun _ => ⟨rfl, rfl⟩ }

variable {s : Pair}

theorem inv_of_node (i : NodeIndex) (hown : NodeInv (s.node i) (s.node i.peer) s.clock)
    (hpeer : NodeInv (s.node i.peer) (s.node i) s.clock) : Inv s := by
  intro j
  rcases NodeIndex.eq_or_eq_peer i j with rfl | rfl
  · exact hown
  · simpa using hpeer

theorem QuietStep.frame (h : QuietStep i n p n') :
    n'.journal = n.journal ∧ n'.lastAppend = n.lastAppend := by
  cases h <;> exact ⟨rfl, rfl⟩

theorem AppendStep.frame (h : AppendStep i n p n' row) : n'.journal = n.journal := by
  cases h <;> rfl

variable {t : Pair}

theorem inv_step (h : Inv s) (hstep : Step s t) (hpaced : Paced s t) : Inv t := by
  cases hstep with
  | quiet i n hquiet =>
    have hown := h i
    have hpeer : NodeInv (s.node i.peer) (s.node i) s.clock := by simpa using h i.peer
    obtain ⟨hjournal, happend⟩ := hquiet.frame
    apply inv_of_node i
    · simpa using hown.quietStep hpeer hquiet
    · rw [Pair.setNode_self, Pair.setNode_peer]
      apply hpeer.peer_mono le_rfl
      · intro row hrow
        rwa [hjournal]
      · intro hcleared
        unfold Cleared
        rw [hjournal, happend]
        exact hcleared
  | write i n row happend hrise hheld =>
    have hown := h i
    have hpeer : NodeInv (s.node i.peer) (s.node i) s.clock := by simpa using h i.peer
    have hpace : (s.node i).journal.rows = [] ∨ (s.node i).fullCheck = true := by
      apply hpaced i
      simp [Pair.setNode, NodeState.write, happend.frame]
    apply inv_of_node i
    · simpa [Pair.setNode] using hown.appendStep happend hpace hrise
    · have hnode : NodeInv (s.node i.peer) (n.write row (s.clock + 1) hrise) (s.clock + 1) := by
        apply hpeer.peer_mono (Nat.le_succ _)
        · intro earlier hearlier
          rw [← happend.frame] at hearlier
          exact mem_append_left _ hearlier
        · intro _ _ _
          exact Nat.lt_succ_of_le hpeer.written
      simpa [Pair.setNode] using hnode

theorem inv_run {setting : NodeIndex → Bool} (h : PacedRun (Pair.initial setting) s) : Inv s := by
  induction h with
  | refl => exact inv_initial setting
  | tail _ hstep ih => exact inv_step ih hstep.1 hstep.2

/-- In no reachable state do both nodes pay carried balances: never are both gates open
while both nodes' latest rows claim ownership. -/
theorem one_node_pays {setting : NodeIndex → Bool} {s : Pair} (hrun : PacedRun (Pair.initial setting) s) :
    ¬ ((∀ i, (s.node i).gate = true) ∧ ∀ i, claims (s.node i).journal.latest = true) := by
  rintro ⟨hopen, hclaims⟩
  have hinv := inv_run hrun
  have hab := (hinv .a).gate (hopen .a) (hclaims .a) (hclaims .b)
  have hba := (hinv .b).gate (hopen .b) (hclaims .b) (hclaims .a)
  exact lt_asymm hab hba

theorem PacedRun.quiet (h : PacedRun s t) (i : NodeIndex)
    (hstep : QuietStep i (t.node i) (t.node i.peer) n) : PacedRun s (t.setNode i n) := by
  refine Relation.ReflTransGen.tail h ⟨Step.quiet i n hstep, ?_⟩
  intro j hchanged
  rcases NodeIndex.eq_or_eq_peer i j with rfl | rfl
  · rw [Pair.setNode_self, hstep.frame.1] at hchanged
    exact absurd rfl hchanged
  · rw [Pair.setNode_peer] at hchanged
    exact absurd rfl hchanged

theorem PacedRun.firstRow (h : PacedRun s t) (i : NodeIndex) (hstep : AppendStep i (t.node i) (t.node i.peer) n row)
    (hempty : n.journal.rows = []) (hsynced : n.synced = 0) :
    PacedRun s
      { t.setNode i (n.write row (t.clock + 1) (by simp [hempty])) with clock := t.clock + 1 } := by
  refine Relation.ReflTransGen.tail h
    ⟨Step.write i n row hstep (by simp [hempty]) (by simp [hsynced]), ?_⟩
  intro j hchanged
  rcases NodeIndex.eq_or_eq_peer i j with rfl | rfl
  · rw [hstep.frame] at hempty
    exact Or.inl hempty
  · simp [Pair.setNode] at hchanged

def Pair.of (a b : NodeState) (clock : ℕ) : Pair where
  node i := match i with
    | .a => a
    | .b => b
  clock

theorem Pair.of_setNode_a (a a' b : NodeState) (clock : ℕ) :
    (Pair.of a b clock).setNode .a a' = Pair.of a' b clock := by
  simp only [Pair.setNode, Pair.of, Pair.mk.injEq, and_true]
  funext i
  cases i <;> rfl

theorem Pair.of_setNode_b (a b b' : NodeState) (clock : ℕ) :
    (Pair.of a b clock).setNode .b b' = Pair.of a b' clock := by
  simp only [Pair.setNode, Pair.of, Pair.mk.injEq, and_true]
  funext i
  cases i <;> rfl

def unseeded (setting : Bool) (check : CheckPhase) : NodeState where
  journal := .empty
  synced := 0
  setting
  guard := {}
  gate := false
  check
  transfers := []
  fullCheck := false
  lastAppend := 0

def seededNode (i : NodeIndex) (setting : Bool) (guard : Guard) (gate : Bool) (check : CheckPhase)
    (at' : ℕ) : NodeState where
  journal := Journal.empty.append (seedRow i 1 setting) (by simp [Journal.empty])
  synced := 0
  setting
  guard
  gate
  check
  transfers := []
  fullCheck := false
  lastAppend := at'

theorem one_node_pays_after_seeds :
    ∃ s, PacedRun (Pair.initial (fun i => i = .a)) s ∧ (s.node .a).gate = true ∧
      claims (s.node .a).journal.latest = true ∧
      ¬ ((∀ i, (s.node i).gate = true) ∧ ∀ i, claims (s.node i).journal.latest = true) := by
  let none2 : LatestRoles := ⟨none, none⟩
  let readB : PeerRead := .answered none none true
  let readA : PeerRead := .answered (some (seedRow .b 1 false)) none true
  let rolesA : LatestRoles := ⟨some (seedRow .a 1 true), none⟩
  let b' := seededNode .b false {} false (.seeded (some .b) readB false) 1
  have hinit : Pair.initial (fun i => i = .a) =
      Pair.of (unseeded true .idle) (unseeded false .idle) 0 := by
    simp only [Pair.initial, Pair.of, Pair.mk.injEq, and_true]
    funext i
    cases i <;> rfl
  have start : PacedRun (Pair.initial (fun i => i = .a))
      (Pair.of (unseeded true .idle) (unseeded false .idle) 0) := hinit ▸ .refl
  have startB := start.quiet .b (.start (some .b) rfl)
  rw [Pair.of_setNode_b] at startB
  have askB : PacedRun (Pair.initial (fun i => i = .a))
      (Pair.of (unseeded true .idle) (unseeded false (.seedRead (some .b) none2 readB true)) 0) := by
    have h := startB.quiet .b (.askForSeed none2 readB true rfl rfl rfl .primary)
    rwa [Pair.of_setNode_b] at h
  have seedB : PacedRun (Pair.initial (fun i => i = .a))
      (Pair.of (unseeded true .idle) b' 1) := by
    have h := askB.firstRow .b (.seed (some .b) none2 readB true 1 rfl rfl rfl) rfl rfl
    rwa [Pair.of_setNode_b] at h
  have startA := seedB.quiet .a (.start (some .a) rfl)
  rw [Pair.of_setNode_a] at startA
  have askA : PacedRun (Pair.initial (fun i => i = .a))
      (Pair.of (unseeded true (.seedRead (some .a) none2 readA true)) b' 1) := by
    have h := startA.quiet .a (.askForSeed none2 readA true rfl rfl rfl .primary)
    rwa [Pair.of_setNode_a] at h
  have seedA : PacedRun (Pair.initial (fun i => i = .a))
      (Pair.of (seededNode .a true {} false (.seeded (some .a) readA false) 2) b' 2) := by
    have h := askA.firstRow .a (.seed (some .a) none2 readA true 1 rfl rfl rfl) rfl rfl
    rwa [Pair.of_setNode_a] at h
  have againA : PacedRun (Pair.initial (fun i => i = .a))
      (Pair.of (seededNode .a true {} false (.reading (some .a) rolesA (some readA) false) 2)
        b' 2) := by
    have h := seedA.quiet .a (.readAgain (some .a) readA false rfl)
    rwa [Pair.of_setNode_a] at h
  have askedA : PacedRun (Pair.initial (fun i => i = .a))
      (Pair.of (seededNode .a true {} false (.asked (some .a) rolesA readA false) 2) b' 2) := by
    have h := againA.quiet .a (.askEarlier (some .a) rolesA readA false rfl rfl)
    rwa [Pair.of_setNode_a] at h
  have decidedA : PacedRun (Pair.initial (fun i => i = .a))
      (Pair.of (seededNode .a true ⟨true, some 1⟩ false (.decided rolesA.own .paying false) 2)
        b' 2) := by
    have h := askedA.quiet .a (.decide (some .a) rolesA readA false none (⟨true, some 1⟩, .paying)
      rfl rfl)
    rwa [Pair.of_setNode_a] at h
  have gateA := decidedA.quiet .a (.setGate rolesA.own .paying false rfl)
  exact ⟨_, gateA, rfl, rfl, one_node_pays gateA⟩

end QbitPrism.CarryOwner
