import Mathlib

/-!
# Share partitions, their relations and their archives

One entry of the partition catalog, the relation PostgreSQL holds for it, and the archive files
written outside of PostgreSQL. A manifest links to the archive of the partition below it.
-/
namespace QbitPrism.Retention

/-- A share of the ledger. Its other columns are immutable and archived as they are. -/
structure LedgerRow (B : Type*) where
  shareSeq : ℤ
  body : B
deriving DecidableEq

/-- An archive's manifest. `createdAt` stands for the fields no check reads. -/
structure ArchiveManifest (H : Type*) where
  partitionName : ℕ
  lowerSeq : Option ℤ
  upperSeq : ℤ
  rowCount : ℕ
  rowsSha256 : H
  previousManifestSha256 : Option H
  previousUpperSeq : Option ℤ
  createdAt : ℕ

/-- The digests of a manifest's canonical bytes and of a row stream, free of collisions. -/
structure Sha256 (B H : Type*) where
  manifest : ArchiveManifest H → H
  rows : Finset (LedgerRow B) → H
  manifest_injective : Function.Injective manifest
  rows_injective : Function.Injective rows

/-- One archive version: its manifest and its rows. -/
structure ArchiveFile (B H : Type*) where
  manifest : ArchiveManifest H
  rows : Finset (LedgerRow B)

inductive PartitionState where
  | attached
  | detached
  | dropped
deriving DecidableEq

/-- What the catalog records of a partition's archive. -/
structure RecordedArchive (H : Type*) where
  archiveManifestSha256 : H
  archiveRows : ℕ
  archiveRowsSha256 : H

/-- The table of a partition. A detach that is pending hides it from its parent. -/
structure Relation (B : Type*) where
  rows : Finset (LedgerRow B)
  attached : Bool
  detachPending : Bool

/-- A catalog row and its relation, if there is one. `committed` is history: every row that
was ever committed to the partition. -/
structure Partition (B H : Type*) where
  name : ℕ
  lowerSeq : Option ℤ
  upperSeq : ℤ
  state : PartitionState
  isSealed : Bool
  archive : Option (RecordedArchive H)
  verified : Bool
  relation : Option (Relation B)
  committed : Finset (LedgerRow B)

variable {B H : Type*} [DecidableEq B]

def chainIsAdjacent : Option ℤ → Option ℤ → Bool
  | none, none => true
  | some previous, some lower => previous = lower
  | _, _ => false

namespace ArchiveFile

structure Reads (sha : Sha256 B H) (file : ArchiveFile B H) : Prop where
  digest : file.manifest.rowsSha256 = sha.rows file.rows
  count : file.manifest.rowCount = file.rows.card

/-- The file is the archive the catalog recorded for the partition. -/
structure Recorded (sha : Sha256 B H) (file : ArchiveFile B H) (archive : RecordedArchive H)
    (p : Partition B H) : Prop where
  reads : file.Reads sha
  name : file.manifest.partitionName = p.name
  lower : file.manifest.lowerSeq = p.lowerSeq
  upper : file.manifest.upperSeq = p.upperSeq
  digest : sha.manifest file.manifest = archive.archiveManifestSha256
  count : file.manifest.rowCount = archive.archiveRows
  rowsDigest : file.manifest.rowsSha256 = archive.archiveRowsSha256

end ArchiveFile

namespace Partition

def covers (p : Partition B H) (seq : ℤ) : Bool :=
  (match p.lowerSeq with
    | none => true
    | some lower => decide (lower ≤ seq)) && decide (seq < p.upperSeq)

def isAttached (p : Partition B H) : Bool :=
  match p.relation with
  | some relation => relation.attached
  | none => false

def routes (p : Partition B H) (row : LedgerRow B) : Bool :=
  match p.relation with
  | some relation => relation.attached && !relation.detachPending && p.covers row.shareSeq
  | none => false

/-- The partition after a transaction that inserts `rows` through the parent. -/
def receive (rows : Finset (LedgerRow B)) (p : Partition B H) : Partition B H :=
  { p with
    relation := p.relation.map fun relation =>
      { relation with rows := relation.rows ∪ rows.filter fun row => p.routes row }
    committed := p.committed ∪ rows.filter fun row => p.routes row }

def Apart (p q : Partition B H) : Prop :=
  (∃ lower, p.lowerSeq = some lower ∧ q.upperSeq ≤ lower) ∨
    ∃ lower, q.lowerSeq = some lower ∧ p.upperSeq ≤ lower

end Partition

/-- The row `ORDER BY upper_seq DESC LIMIT 1` selects. -/
def highest : List (Partition B H) → Option (Partition B H)
  | [] => none
  | p :: rest =>
    match highest rest with
    | none => some p
    | some q => if q.upperSeq ≤ p.upperSeq then some p else some q

/-- The archived partition with the next-lower `upperSeq`. -/
def archivedPredecessor (catalog : List (Partition B H)) (upperSeq : ℤ) : Option (Partition B H) :=
  highest (catalog.filter fun p => p.archive.isSome && p.upperSeq < upperSeq)

/-- Every archived partition above `upperSeq`. -/
def archivedSuccessors (catalog : List (Partition B H)) (upperSeq : ℤ) : List (Partition B H) :=
  catalog.filter fun p => p.archive.isSome && upperSeq < p.upperSeq

def expectedLink (catalog : List (Partition B H)) (upperSeq : ℤ) : Option H × Option ℤ :=
  let previous := archivedPredecessor catalog upperSeq
  (previous.bind fun row => row.archive.map RecordedArchive.archiveManifestSha256,
    previous.map Partition.upperSeq)

/-- The archive of the partition's rows over the predecessor of now. -/
def archiveFile (sha : Sha256 B H) (catalog : List (Partition B H)) (p : Partition B H)
    (rows : Finset (LedgerRow B)) (createdAt : ℕ) : ArchiveFile B H where
  manifest :=
    { partitionName := p.name
      lowerSeq := p.lowerSeq
      upperSeq := p.upperSeq
      rowCount := rows.card
      rowsSha256 := sha.rows rows
      previousManifestSha256 := (expectedLink catalog p.upperSeq).1
      previousUpperSeq := (expectedLink catalog p.upperSeq).2
      createdAt }
  rows

/-- The catalog row an archive's transaction writes for its partition. -/
def RecordedArchive.ofFile (sha : Sha256 B H) (file : ArchiveFile B H) : RecordedArchive H where
  archiveManifestSha256 := sha.manifest file.manifest
  archiveRows := file.manifest.rowCount
  archiveRowsSha256 := file.manifest.rowsSha256

/-- The catalog transaction of an archive: its record, unverified, and every later archive's
verification cleared. -/
def recordArchive (sha : Sha256 B H) (file : ArchiveFile B H) (name : ℕ) (upperSeq : ℤ)
    (p : Partition B H) : Partition B H :=
  if p.name = name then { p with archive := some (.ofFile sha file), verified := false }
  else if p.archive.isSome && upperSeq < p.upperSeq && p.state = .attached then
    { p with verified := false }
  else p

end QbitPrism.Retention
