import Mathlib
import QbitPrism.Lib.Transition
import QbitPrism.Retention.Catalog

/-!
# The retention commands

`archive`, `verify`, `detach`, `drop` and `restore`, one at a time under the lifecycle lock and
each cut into its reads, its file writes, its DDL and its catalog transaction, between own
appends, the peer's pulled rows and new partitions. A command may crash between any two steps.
-/
namespace QbitPrism.Retention

variable {B H : Type*} [DecidableEq B]

/-- The command that holds the lifecycle lock, and how far it has come. A stream reads its
partition page by page; it holds every row there was when it began. -/
inductive Command (B H : Type*) where
  | idle
  | archiveDrain (name : ℕ)
  | archiveStream (name : ℕ) (start : Finset (LedgerRow B))
  | archiveWrite (name : ℕ) (file : ArchiveFile B H)
  | archiveRecord (name : ℕ) (file : ArchiveFile B H)
  | verifyDrain (name : ℕ) (file : ArchiveFile B H)
  | verifyStream (name : ℕ) (file : ArchiveFile B H) (start : Finset (LedgerRow B))
  | verifyRecord (name : ℕ) (file : ArchiveFile B H)
  | detach (name : ℕ)
  | detachRecord (name : ℕ)
  | drop (name : ℕ)
  | dropRecord (name : ℕ)

/-- The database, the archive root and the command under way. `append` is the `share_seq` an
append has drawn and not yet committed, under `ORDER_LOCK`; `history` is every row ever
committed. -/
structure World (B H : Type*) where
  catalog : List (Partition B H)
  files : List (ArchiveFile B H)
  nextShareSeq : ℤ
  append : Option ℤ
  peerMark : Option ℤ
  command : Command B H
  history : Finset (LedgerRow B)

namespace World

def onPartition (s : World B H) (name : ℕ) (f : Partition B H → Partition B H) : World B H :=
  { s with catalog := s.catalog.map fun p => if p.name = name then f p else p }

/-- A transaction that inserts `rows` through the parent. -/
def receive (s : World B H) (rows : Finset (LedgerRow B)) : World B H :=
  { s with
    catalog := s.catalog.map (Partition.receive rows)
    history := s.history ∪ rows }

def Routed (s : World B H) (rows : Finset (LedgerRow B)) : Prop :=
  ∀ row ∈ rows, ∃ p ∈ s.catalog, p.routes row = true

/-- The manifest links to the partition below, which is verified and ends where it starts. -/
structure Links (s : World B H) (manifest : ArchiveManifest H) (upperSeq : ℤ) : Prop where
  link : (manifest.previousManifestSha256, manifest.previousUpperSeq) =
    expectedLink s.catalog upperSeq
  adjacent : chainIsAdjacent manifest.previousUpperSeq manifest.lowerSeq = true
  verified : ∀ q, archivedPredecessor s.catalog upperSeq = some q → q.verified = true

/-- The plan's conditions that keep rows out of the partition: the share sequence, and on a
dual writer the peer mark, have passed it. -/
structure Passed (s : World B H) (dualWriter : Bool) (p : Partition B H) : Prop where
  sequence : p.upperSeq ≤ s.nextShareSeq
  mark : dualWriter = true → ∃ mark, s.peerMark = some mark ∧ p.upperSeq - 1 ≤ mark

end World

/-- The conditions `detach` requires of a partition, with its rows counted in the plan. -/
structure Detachable (s : World B H) (dualWriter : Bool) (p : Partition B H) (live : Relation B)
    (recorded : RecordedArchive H) : Prop where
  relation : p.relation = some live
  isSealed : p.isSealed = true
  archive : p.archive = some recorded
  verified : p.verified = true
  count : live.rows.card = recorded.archiveRows
  passed : s.Passed dualWriter p

/-- A partition as `qbit_prism_share_partition_create` adds it. -/
structure IsNew (p : Partition B H) (rows : Finset (LedgerRow B)) : Prop where
  ordered : ∀ lower, p.lowerSeq = some lower → lower < p.upperSeq
  state : p.state = .attached
  archive : p.archive = none
  verified : p.verified = false
  relation : p.relation = some { rows, attached := true, detachPending := false }
  committed : p.committed = rows

inductive LedgerStep (dualWriter : Bool) (s : World B H) : World B H → Prop where
  | draw (seq next : ℤ) (hfree : s.append = none) (hseq : s.nextShareSeq ≤ seq) (hnext : seq < next) :
      LedgerStep dualWriter s { s with append := some seq, nextShareSeq := next }
  | commit (row : LedgerRow B) (hrow : s.append = some row.shareSeq) (hrouted : s.Routed {row}) :
      LedgerStep dualWriter s { s.receive {row} with append := none }
  | abort : LedgerStep dualWriter s { s with append := none }
  | raise (next : ℤ) (hnext : s.nextShareSeq ≤ next) :
      LedgerStep dualWriter s { s with nextShareSeq := next }
  -- One transaction inserts the peer's rows and moves the mark.
  | pull (rows : Finset (LedgerRow B)) (mark : ℤ) (hdual : dualWriter = true)
      (hrows : ∀ row ∈ rows, ∀ earlier, s.peerMark = some earlier → earlier < row.shareSeq)
      (hmark : ∀ earlier, s.peerMark = some earlier → earlier ≤ mark) (hrouted : s.Routed rows) :
      LedgerStep dualWriter s { s.receive rows with peerMark := some mark }
  | create (p : Partition B H) (hnew : IsNew p ∅) (hname : ∀ q ∈ s.catalog, q.name ≠ p.name)
      (hapart : ∀ q ∈ s.catalog, q.Apart p) :
      LedgerStep dualWriter s { s with catalog := s.catalog ++ [p] }
  | sealAudits (name : ℕ) :
      LedgerStep dualWriter s (s.onPartition name fun p => { p with isSealed := true })

/-- The steps of `archive`. -/
inductive ArchiveStep (sha : Sha256 B H) (s : World B H) (p : Partition B H) : World B H → Prop where
  | begin (force : Bool) (hidle : s.command = .idle) (hstate : p.state = .attached)
      (hattached : p.isAttached = true) (hpassed : p.upperSeq ≤ s.nextShareSeq)
      (hforce : p.archive = none ∨ force = true) :
      ArchiveStep sha s p { s with command := .archiveDrain p.name }
  -- The in-flight appends are drained, and the chain and the successors are checked.
  | read (relation : Relation B) (hcommand : s.command = .archiveDrain p.name)
      (hdrained : s.append = none) (hrelation : p.relation = some relation)
      (hadjacent : chainIsAdjacent (expectedLink s.catalog p.upperSeq).2 p.lowerSeq = true)
      (hverified : ∀ q, archivedPredecessor s.catalog p.upperSeq = some q → q.verified = true)
      (hdeparted : ∀ q ∈ archivedSuccessors s.catalog p.upperSeq, q.state = .attached) :
      ArchiveStep sha s p { s with command := .archiveStream p.name relation.rows }
  | streamed (start rows : Finset (LedgerRow B)) (relation : Relation B) (createdAt : ℕ)
      (hcommand : s.command = .archiveStream p.name start) (hrelation : p.relation = some relation)
      (hstart : start ⊆ rows) (hrows : rows ⊆ relation.rows) :
      ArchiveStep sha s p
        { s with command := .archiveWrite p.name (archiveFile sha s.catalog p rows createdAt) }
  | write (file : ArchiveFile B H) (hcommand : s.command = .archiveWrite p.name file) :
      ArchiveStep sha s p
        { s with files := file :: s.files, command := .archiveRecord p.name file }
  | record (file : ArchiveFile B H) (hcommand : s.command = .archiveRecord p.name file)
      (hstate : p.state = .attached) :
      ArchiveStep sha s p
        { s with
          catalog := s.catalog.map (recordArchive sha file p.name p.upperSeq)
          command := .idle }

/-- The steps of `verify` of an attached partition; off its parent it records nothing. -/
inductive VerifyStep (sha : Sha256 B H) (s : World B H) (p : Partition B H) : World B H → Prop where
  | begin (file : ArchiveFile B H) (archive : RecordedArchive H) (hidle : s.command = .idle)
      (hattached : p.isAttached = true) (hfile : file ∈ s.files) (harchive : p.archive = some archive)
      (hrecorded : file.Recorded sha archive p) (hlinks : s.Links file.manifest p.upperSeq)
      (hpassed : p.upperSeq ≤ s.nextShareSeq) :
      VerifyStep sha s p { s with command := .verifyDrain p.name file }
  | read (file : ArchiveFile B H) (relation : Relation B)
      (hcommand : s.command = .verifyDrain p.name file) (hdrained : s.append = none)
      (hrelation : p.relation = some relation) :
      VerifyStep sha s p { s with command := .verifyStream p.name file relation.rows }
  | compare (file : ArchiveFile B H) (start rows : Finset (LedgerRow B)) (relation : Relation B)
      (hcommand : s.command = .verifyStream p.name file start)
      (hrelation : p.relation = some relation) (hstart : start ⊆ rows) (hrows : rows ⊆ relation.rows)
      (hdigest : sha.rows rows = file.manifest.rowsSha256)
      (hcount : rows.card = file.manifest.rowCount) :
      VerifyStep sha s p { s with command := .verifyRecord p.name file }
  | record (file : ArchiveFile B H) (archive : RecordedArchive H)
      (hcommand : s.command = .verifyRecord p.name file)
      (hlinks : s.Links file.manifest p.upperSeq) (harchive : p.archive = some archive)
      (hdigest : archive.archiveManifestSha256 = sha.manifest file.manifest) :
      VerifyStep sha s p
        { s.onPartition p.name fun p => { p with verified := true } with command := .idle }

/-- The steps of `detach`. The DDL marks the partition pending before it leaves its parent, and
the catalog is reconciled with a DDL that was never recorded. -/
inductive DetachStep (dualWriter : Bool) (s : World B H) (p : Partition B H) : World B H → Prop where
  | begin (relation : Relation B) (archive : RecordedArchive H) (hidle : s.command = .idle)
      (hattached : p.isAttached = true) (hplan : Detachable s dualWriter p relation archive) :
      DetachStep dualWriter s p { s with command := .detach p.name }
  | pend (hcommand : s.command = .detach p.name) :
      DetachStep dualWriter s p
        (s.onPartition p.name fun p =>
          { p with relation := p.relation.map fun relation => { relation with detachPending := true } })
  | ddl (hcommand : s.command = .detach p.name) :
      DetachStep dualWriter s p
        { s.onPartition p.name fun p =>
            { p with
              relation := p.relation.map fun relation =>
                { relation with attached := false, detachPending := false } } with
          command := .detachRecord p.name }
  | reconcile (relation : Relation B) (archive : RecordedArchive H) (hidle : s.command = .idle)
      (hattached : p.isAttached = false) (hplan : Detachable s dualWriter p relation archive)
      (hstate : p.state = .attached) :
      DetachStep dualWriter s p { s with command := .detachRecord p.name }
  | record (hcommand : s.command = .detachRecord p.name) :
      DetachStep dualWriter s p
        { s.onPartition p.name fun p =>
            { p with state := if p.state = .attached then .detached else p.state } with
          command := .idle }

/-- The steps of `drop`. -/
inductive DropStep (sha : Sha256 B H) (s : World B H) (p : Partition B H) : World B H → Prop where
  | begin (file : ArchiveFile B H) (archive : RecordedArchive H) (relation : Relation B)
      (hidle : s.command = .idle) (hstate : p.state ≠ .attached) (hattached : p.isAttached = false)
      (hverified : p.verified = true) (hsealed : p.isSealed = true) (hfile : file ∈ s.files)
      (harchive : p.archive = some archive) (hrecorded : file.Recorded sha archive p)
      (hrelation : p.relation = some relation)
      (hcount : relation.rows.card = archive.archiveRows) :
      DropStep sha s p { s with command := .drop p.name }
  | missing (hidle : s.command = .idle) (hstate : p.state ≠ .attached) (hverified : p.verified = true)
      (hrelation : p.relation = none) : DropStep sha s p { s with command := .dropRecord p.name }
  | ddl (hcommand : s.command = .drop p.name) :
      DropStep sha s p
        { s.onPartition p.name fun p => { p with relation := none } with
          command := .dropRecord p.name }
  | record (hcommand : s.command = .dropRecord p.name) :
      DropStep sha s p
        { s.onPartition p.name fun p =>
            { p with state := if p.state = .detached then .dropped else p.state } with
          command := .idle }

/-- The transaction of `restore`, from any archive that reads back. Without `--attach` it only
builds the table; only the recorded archive returns a partition to the ledger. -/
inductive RestoreStep (sha : Sha256 B H) (s : World B H) (file : ArchiveFile B H) :
    World B H → Prop where
  | inspect (p : Partition B H) (hidle : s.command = .idle) (hreads : file.Reads sha)
      (hp : p ∈ s.catalog) (hname : file.manifest.partitionName = p.name)
      (hrelation : p.relation = none) :
      RestoreStep sha s file
        (s.onPartition p.name fun p =>
          { p with relation := some { rows := file.rows, attached := false, detachPending := false } })
  | attach (p : Partition B H) (archive : RecordedArchive H) (hidle : s.command = .idle)
      (hreads : file.Reads sha) (hp : p ∈ s.catalog) (hname : file.manifest.partitionName = p.name)
      (hrelation : p.relation = none) (hdrained : s.append = none)
      (hlower : file.manifest.lowerSeq = p.lowerSeq) (hupper : file.manifest.upperSeq = p.upperSeq)
      (harchive : p.archive = some archive)
      (hdigest : archive.archiveManifestSha256 = sha.manifest file.manifest)
      (hceiling : ∀ row ∈ file.rows, row.shareSeq < s.nextShareSeq) :
      RestoreStep sha s file
        (s.onPartition p.name fun p =>
          { p with
            state := .attached
            relation := some { rows := file.rows, attached := true, detachPending := false } })
  | importNew (p : Partition B H) (hidle : s.command = .idle) (hreads : file.Reads sha)
      (hdrained : s.append = none) (hnew : IsNew p file.rows)
      (hname : ∀ q ∈ s.catalog, q.name ≠ p.name) (hapart : ∀ q ∈ s.catalog, q.Apart p)
      (hcovers : ∀ row ∈ file.rows, p.covers row.shareSeq = true)
      (hceiling : ∀ row ∈ file.rows, row.shareSeq < s.nextShareSeq) :
      RestoreStep sha s file
        { s with
          catalog := s.catalog ++ [p]
          history := s.history ∪ file.rows }

/-- One step of the ledger or of the command that holds the lifecycle lock. -/
inductive Step (sha : Sha256 B H) (dualWriter : Bool) (s : World B H) : World B H → Prop where
  | ledger (t : World B H) (hstep : LedgerStep dualWriter s t) : Step sha dualWriter s t
  | archive (p : Partition B H) (t : World B H) (hp : p ∈ s.catalog) (hstep : ArchiveStep sha s p t) :
      Step sha dualWriter s t
  | verify (p : Partition B H) (t : World B H) (hp : p ∈ s.catalog) (hstep : VerifyStep sha s p t) :
      Step sha dualWriter s t
  | detach (p : Partition B H) (t : World B H) (hp : p ∈ s.catalog)
      (hstep : DetachStep dualWriter s p t) : Step sha dualWriter s t
  | drop (p : Partition B H) (t : World B H) (hp : p ∈ s.catalog) (hstep : DropStep sha s p t) :
      Step sha dualWriter s t
  | restore (file : ArchiveFile B H) (t : World B H) (hstep : RestoreStep sha s file t) :
      Step sha dualWriter s t
  | crash : Step sha dualWriter s { s with command := .idle }

def World.initial (nextShareSeq : ℤ) : World B H where
  catalog := []
  files := []
  nextShareSeq
  append := none
  peerMark := none
  command := .idle
  history := ∅

def Reachable (sha : Sha256 B H) (dualWriter : Bool) (nextShareSeq : ℤ) (s : World B H) : Prop :=
  Relation.ReflTransGen (Step sha dualWriter) (.initial nextShareSeq) s

end QbitPrism.Retention
