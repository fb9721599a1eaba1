import Mathlib
import QbitPrism.Lib.Transition
import QbitPrism.Retention.Phases

/-!
# No row is lost and no chain is cut

Over every run of the retention commands, with crashes: a committed row stands in a table or in
the recorded archive of a partition that has left, and the archives chain down without a gap.
-/
namespace QbitPrism.Retention
open List

variable {B H : Type*} {sha : Sha256 B H} {dualWriter : Bool} {s t : World B H}
  {p q : Partition B H}

section
variable (hrecords : Records sha t.files t.nextShareSeq t.append t.catalog t.history)
include hrecords

theorem Inv.idle
    (hcommand : t.command = .idle) : Inv sha dualWriter t := by
  refine ⟨hrecords, fun name hname => ?_⟩
  rw [hcommand] at hname
  cases hname

theorem Inv.on
    (hp : p ∈ t.catalog) (hname : t.command.partition = some p.name)
    (hestablished : Established sha dualWriter t t.command p) : Inv sha dualWriter t := by
  refine ⟨hrecords, fun name hother => ⟨p, hp, ?_, hestablished⟩⟩
  exact Option.some.inj (hname.symm.trans hother)

end

theorem Inv.archiveStep (h : Inv sha dualWriter s) (hp : p ∈ s.catalog)
    (hstep : ArchiveStep sha s p t) : Inv sha dualWriter t := by
  cases hstep with
  | begin force hidle hstate hattached hpassed hforce => exact .on h.records hp rfl trivial
  | read relation hcommand hdrained hrelation hadjacent hverified hdeparted =>
    refine .on h.records hp rfl ?_
    intro q hq hgone
    by_contra habove
    rw [not_le] at habove
    have hqverified := (h.records.sound q hq).verified hgone
    obtain ⟨archive, -, harchive, -⟩ := h.records.linked q hq hqverified
    apply hgone
    apply hdeparted
    exact mem_filter.mpr ⟨hq, by simp [harchive, habove]⟩
  | streamed start rows relation createdAt hcommand hrelation hstart hrows =>
    have hnone := h.established hp hcommand rfl
    refine .on h.records hp rfl ⟨hnone, ?_, relation, hrelation, hrows⟩
    exact ⟨⟨rfl, rfl⟩, rfl, rfl, rfl, rfl, rfl, rfl⟩
  | write file hcommand =>
    have hwriting := h.established hp hcommand rfl
    refine .on (h.records.later ?_ fun _ => id) hp rfl hwriting
    exact subset_cons_self file s.files
  | record file hcommand hstate =>
    have hwriting := h.established hp hcommand rfl
    exact .idle (h.records.record hp hstate hwriting.1 hwriting.2) rfl

theorem Inv.verifyStep (h : Inv sha dualWriter s) (hp : p ∈ s.catalog)
    (hstep : VerifyStep sha s p t) : Inv sha dualWriter t := by
  cases hstep with
  | begin file archive hidle hattached hfile harchive hrecorded hlinks hpassed =>
    exact .on h.records hp rfl ⟨hfile, ⟨archive, harchive, hrecorded⟩, hpassed⟩
  | read file relation hcommand hdrained hrelation =>
    have hcomparing := h.established hp hcommand rfl
    obtain ⟨hfile, hsame, hpassed⟩ := hcomparing
    refine .on h.records hp rfl ⟨hfile, hsame, hpassed, fun seq hseq => ?_⟩
    rw [hdrained] at hseq
    cases hseq
  | compare file start rows relation hcommand hrelation hstart hrows hdigest hcount =>
    have hcomparing := h.established hp hcommand rfl
    exact .on h.records hp rfl hcomparing
  | record file archive hcommand hlinks harchive hdigest =>
    have hcomparing := h.established hp hcommand rfl
    obtain ⟨hfile, ⟨archive', harchive', hrecorded⟩, hpassed⟩ := hcomparing
    refine .idle (h.records.replace hp _ ?_ ?_ ?_) rfl
    · exact ⟨⟨rfl, rfl, rfl, rfl⟩, fun _ => rfl, Finset.Subset.refl _⟩
    · exact (h.records.sound p hp).keep ⟨rfl, rfl, rfl, rfl⟩ rfl rfl
        (fun relation h => ⟨relation, h, rfl⟩) id (fun _ => rfl) fun _ => hpassed
    · intro _
      exact ⟨archive', file, harchive', hfile, hrecorded, hrecorded.lower ▸ hlinks.down⟩

theorem Standing.archived_of_count (h : Standing sha p) {live : Relation B} {archive : RecordedArchive H}
    (hrelation : p.relation = some live) (harchive : p.archive = some archive)
    (hcount : live.rows.card = archive.archiveRows) : Archived sha p := by
  intro recorded file hrecorded hfile
  obtain rfl := Option.some.inj (harchive.symm.trans hrecorded)
  obtain ⟨relation, hrelation', hcommitted, harchived⟩ := h
  obtain rfl := Option.some.inj (hrelation.symm.trans hrelation')
  have hrows : file.rows = live.rows := by
    apply Finset.eq_of_subset_of_card_le (harchived archive file harchive hfile)
    rw [hcount, ← hfile.count, hfile.reads.count]
  rw [hrows]
  exact hcommitted

theorem Inv.leaving (h : Inv sha dualWriter s) (hp : p ∈ s.catalog) (hstate : p.state = .attached)
    {live : Relation B} {archive : RecordedArchive H}
    (hplan : Detachable s dualWriter p live archive) : Leaving sha dualWriter s.peerMark p where
  verified := hplan.verified
  archived := ((h.records.sound p hp).recorded hstate).archived_of_count hplan.relation
    hplan.archive hplan.count
  mark := hplan.passed.mark

theorem Sound.remark {next : ℤ} {append : Option ℤ} (h : Sound sha next append p)
    (mark : Relation B → Relation B) (hrows : ∀ relation, (mark relation).rows = relation.rows)
    (hattached : ∀ relation, relation.attached = false → (mark relation).attached = false) :
    Sound sha next append { p with relation := p.relation.map mark } := by
  refine h.keep ⟨rfl, rfl, rfl, rfl⟩ rfl rfl ?_ ?_ h.verified h.passed
  · intro relation hrelation
    exact ⟨mark relation, congrArg (Option.map mark) hrelation, hrows relation⟩
  · intro hapart
    unfold Partition.isAttached at hapart ⊢
    cases hrelation : p.relation with
    | none => rfl
    | some relation =>
      rw [hrelation] at hapart
      exact hattached relation hapart

theorem Inv.detachStep (h : Inv sha dualWriter s) (hp : p ∈ s.catalog)
    (hstep : DetachStep dualWriter s p t) : Inv sha dualWriter t := by
  have hsound := h.records.sound p hp
  cases hstep with
  | begin relation archive hidle hattached hplan =>
    have hstate : p.state = .attached := by
      by_contra hgone
      rw [hsound.apart hgone] at hattached
      cases hattached
    exact .on h.records hp rfl (h.leaving hp hstate hplan)
  | pend hcommand =>
    have hleaving := h.established hp hcommand rfl
    refine .on (h.records.update hp ?_) (mem_map_of_mem hp) ?_ ?_
    · exact hsound.remark _ (fun _ => rfl) fun _ => id
    · rw [if_pos rfl]
      exact congrArg Command.partition hcommand
    · rw [if_pos rfl]
      change Established sha dualWriter _ s.command _
      rw [hcommand]
      exact hleaving.update p.isSealed _
  | ddl hcommand =>
    have hleaving := h.established hp hcommand rfl
    refine .on (h.records.update hp ?_) (mem_map_of_mem hp) ?_ ?_
    · exact hsound.remark _ (fun _ => rfl) fun _ _ => rfl
    · rw [if_pos rfl]
      rfl
    · rw [if_pos rfl]
      refine ⟨hleaving.update p.isSealed _, ?_⟩
      unfold Partition.isAttached
      cases hrelation : p.relation <;> simp [hrelation]
  | reconcile relation archive hidle hattached hplan hstate =>
    exact .on h.records hp rfl ⟨h.leaving hp hstate hplan, hattached⟩
  | record hcommand =>
    have hleaving := h.established hp hcommand rfl
    refine .idle (h.records.update hp ?_) rfl
    refine ⟨hsound.ordered, ?_, fun _ => hleaving.1.verified, fun _ => hleaving.2, ?_, hsound.passed⟩
    · intro hstate
      split at hstate
      · cases hstate
      · contradiction
    · exact fun _ => hleaving.1.archived.update p.isSealed _ p.relation

theorem Sound.gone {next : ℤ} {append : Option ℤ} (h : Sound sha next append p) (hgone : p.state ≠ .attached)
    {state : PartitionState} (hstate : state ≠ .attached) {relation : Option (Relation B)}
    (hapart : ({ p with relation := relation } : Partition B H).isAttached = false) :
    Sound sha next append { p with state := state, relation := relation } :=
  ⟨h.ordered, fun hback => absurd hback hstate, fun _ => h.verified hgone, fun _ => hapart,
    fun _ => (h.archived hgone).update p.isSealed state relation, h.passed⟩

theorem Inv.dropStep (h : Inv sha dualWriter s) (hp : p ∈ s.catalog)
    (hstep : DropStep sha s p t) : Inv sha dualWriter t := by
  have hsound := h.records.sound p hp
  cases hstep with
  | begin file archive relation hidle hstate =>
    exact .on h.records hp rfl hstate
  | missing hidle hstate hverified hrelation => exact .on h.records hp rfl trivial
  | ddl hcommand =>
    have hgone := h.established hp hcommand rfl
    refine .on (h.records.update hp ?_) (mem_map_of_mem hp) ?_ ?_
    · exact hsound.gone hgone hgone rfl
    · rw [if_pos rfl]
      rfl
    · trivial
  | record hcommand =>
    refine .idle (h.records.update hp ?_) rfl
    by_cases hstate : p.state = .detached
    · rw [if_pos hstate]
      have hgone : p.state ≠ .attached := by
        rw [hstate]
        nofun
      exact hsound.gone hgone (by nofun) (hsound.apart hgone)
    · rw [if_neg hstate]
      exact hsound

theorem Inv.restoreStep [DecidableEq B] (h : Inv sha dualWriter s) {file : ArchiveFile B H}
    (hstep : RestoreStep sha s file t) : Inv sha dualWriter t := by
  have hmissing : ∀ p ∈ s.catalog, p.relation = none → p.state ≠ .attached := by
    intro p hp hrelation hattached
    obtain ⟨relation, hsome, -⟩ := (h.records.sound p hp).recorded hattached
    rw [hrelation] at hsome
    cases hsome
  cases hstep with
  | inspect p hidle hreads hp hname hrelation =>
    have hgone := hmissing p hp hrelation
    exact .idle (h.records.update hp ((h.records.sound p hp).gone hgone hgone rfl)) hidle
  | attach p archive hidle hreads hp hname hrelation hdrained hlower hupper harchive hdigest =>
    have hsound := h.records.sound p hp
    have hgone := hmissing p hp hrelation
    obtain ⟨archive', recorded, harchive', -, hrecorded, -⟩ :=
      h.records.linked p hp (hsound.verified hgone)
    obtain rfl := Option.some.inj (harchive.symm.trans harchive')
    have hmanifest : file.manifest = recorded.manifest :=
      sha.manifest_injective (hdigest.symm.trans hrecorded.digest.symm)
    have hrows : file.rows = recorded.rows := by
      apply sha.rows_injective
      rw [← hreads.digest, hmanifest, hrecorded.reads.digest]
    refine .idle (h.records.update hp (.of_attached rfl hsound.ordered ⟨_, rfl, ?_, ?_⟩ hsound.passed)) hidle
    · rw [hrows]
      exact hsound.archived hgone archive recorded harchive hrecorded
    · intro other older hother holder
      obtain rfl := Option.some.inj (harchive.symm.trans hother)
      rw [hrows, holder.rows_eq hrecorded]
  | importNew p hidle hreads hdrained hnew hname =>
    exact .idle (h.records.add hname hnew) hidle

theorem Inv.step [DecidableEq B] (s t : World B H) (h : Inv sha dualWriter s)
    (hstep : Step sha dualWriter s t) : Inv sha dualWriter t := by
  cases hstep with
  | ledger _ hstep => exact h.ledgerStep hstep
  | archive p _ hp hstep => exact h.archiveStep hp hstep
  | verify p _ hp hstep => exact h.verifyStep hp hstep
  | detach p _ hp hstep => exact h.detachStep hp hstep
  | drop p _ hp hstep => exact h.dropStep hp hstep
  | restore file _ hstep => exact h.restoreStep hstep
  | crash => exact .idle h.records rfl

theorem Inv.initial (first : ℤ) : Inv sha dualWriter (.initial first) := by
  refine .idle ⟨?_, ?_, ?_, ?_⟩ rfl
  · exact fun p hp => absurd hp not_mem_nil
  · exact fun p hp => absurd hp not_mem_nil
  · exact fun p hp => absurd hp not_mem_nil
  · exact fun row hrow => absurd hrow (Finset.notMem_empty row)

/-- The row is in a table that stands, or in the recorded archive of a partition that `left`. -/
def RowKept (sha : Sha256 B H) (left : PartitionState → Prop) (s : World B H)
    (row : LedgerRow B) : Prop :=
  ∃ p ∈ s.catalog, (∃ relation, p.relation = some relation ∧ row ∈ relation.rows) ∨
    (left p.state ∧ OnFile sha s.files p fun file => row ∈ file.rows)

/-- The recorded manifests chain down from the partition to the one without a lower bound, each
the link of the manifest above and each of a verified partition. -/
inductive Chained (sha : Sha256 B H) (s : World B H) : Partition B H → Prop where
  | first (p : Partition B H) (hlower : p.lowerSeq = none)
      (hfile : OnFile sha s.files p fun file => file.manifest.previousManifestSha256 = none) :
      Chained sha s p
  | link (p q : Partition B H) (archive : RecordedArchive H) (hq : q ∈ s.catalog)
      (hlower : p.lowerSeq = some q.upperSeq) (hverified : q.verified = true)
      (harchive : q.archive = some archive)
      (hfile : OnFile sha s.files p fun file =>
        file.manifest.previousManifestSha256 = some archive.archiveManifestSha256)
      (hdown : Chained sha s q) : Chained sha s p

theorem Inv.rowKept (h : Inv sha dualWriter s) {row : LedgerRow B} (hrow : row ∈ s.history) :
    RowKept sha (· ≠ .attached) s row := by
  obtain ⟨p, hp, hcommitted⟩ := h.records.housed row hrow
  have hsound := h.records.sound p hp
  refine ⟨p, hp, ?_⟩
  by_cases hstate : p.state = .attached
  · obtain ⟨relation, hrelation, hrows, -⟩ := hsound.recorded hstate
    exact .inl ⟨relation, hrelation, hrows hcommitted⟩
  · obtain ⟨archive, file, harchive, hfile, hrecorded, -⟩ :=
      h.records.linked p hp (hsound.verified hstate)
    exact .inr ⟨hstate, archive, file, harchive, hfile, hrecorded,
      hsound.archived hstate archive file harchive hrecorded hcommitted⟩

/-- The bounds of the catalog that lie below `upper`. -/
def boundsBelow (catalog : List (Partition B H)) (upper : ℤ) : Finset ℤ :=
  (catalog.map Partition.upperSeq).toFinset.filter (· < upper)

theorem boundsBelow_card_lt {catalog : List (Partition B H)} {upper : ℤ} (hq : q ∈ catalog)
    (hlt : q.upperSeq < upper) :
    (boundsBelow catalog q.upperSeq).card < (boundsBelow catalog upper).card := by
  apply Finset.card_lt_card
  rw [Finset.ssubset_iff_of_subset]
  · refine ⟨q.upperSeq, Finset.mem_filter.mpr ⟨?_, hlt⟩, ?_⟩
    · exact mem_toFinset.mpr (mem_map_of_mem hq)
    · simp [boundsBelow]
  · intro bound hbound
    obtain ⟨hmem, hbelow⟩ := Finset.mem_filter.mp hbound
    exact Finset.mem_filter.mpr ⟨hmem, hbelow.trans hlt⟩

theorem Inv.chained (h : Inv sha dualWriter s) (hp : p ∈ s.catalog) (hverified : p.verified = true) :
    Chained sha s p := by
  induction hcard : (boundsBelow s.catalog p.upperSeq).card using Nat.strong_induction_on
    generalizing p with
  | _ n ih =>
    subst hcard
    obtain ⟨recorded, file, hrecorded, hfile, hreads, hlinks⟩ := h.records.linked p hp hverified
    cases hlower : p.lowerSeq with
    | none =>
      rw [hlower] at hlinks
      exact .first p hlower ⟨recorded, file, hrecorded, hfile, hreads, hlinks⟩
    | some lower =>
      rw [hlower] at hlinks
      obtain ⟨q, hq, rfl, hqverified, archive, harchive, hlink⟩ := hlinks
      have hlt := (h.records.sound p hp).ordered _ hlower
      refine .link p q archive hq hlower hqverified harchive
        ⟨recorded, file, hrecorded, hfile, hreads, hlink⟩ ?_
      exact ih _ (boundsBelow_card_lt hq hlt) hq hqverified rfl

def encodings : Sha256 Unit ℕ where
  manifest m := Encodable.encode (m.partitionName, m.lowerSeq, m.upperSeq, m.rowCount, m.rowsSha256,
    m.previousManifestSha256, m.previousUpperSeq, m.createdAt)
  rows rows := Encodable.encode (rows.image LedgerRow.shareSeq)
  manifest_injective := by
    intro m n h
    cases m
    cases n
    simpa using Encodable.encode_injective h
  rows_injective := by
    have hseq : Function.Injective (LedgerRow.shareSeq : LedgerRow Unit → ℤ) := by
      intro a b h
      cases a
      cases b
      simpa using h
    exact Encodable.encode_injective.comp (Finset.image_injective hseq)

def lonelyRow : LedgerRow Unit := ⟨3, ()⟩

def firstPartition : Partition Unit ℕ where
  name := 0
  lowerSeq := none
  upperSeq := 10
  state := .attached
  isSealed := false
  archive := none
  verified := false
  relation := some { rows := ∅, attached := true, detachPending := false }
  committed := ∅

def filledPartition : Partition Unit ℕ := firstPartition.receive {lonelyRow}

def filledRelation : Relation Unit where
  rows := ∅ ∪ ({lonelyRow} : Finset _).filter fun row => firstPartition.routes row
  attached := true
  detachPending := false

def filledFile : ArchiveFile Unit ℕ :=
  archiveFile encodings [filledPartition] filledPartition filledRelation.rows 0

def archivedPartition (verified isSealed : Bool) (state : PartitionState)
    (relation : Option (Relation Unit)) : Partition Unit ℕ :=
  { filledPartition with
    archive := some (.ofFile encodings filledFile)
    verified, isSealed, state, relation }

def worldOf (p : Partition Unit ℕ) (files : List (ArchiveFile Unit ℕ)) (next : ℤ)
    (command : Command Unit ℕ) : World Unit ℕ where
  catalog := [p]
  files
  nextShareSeq := next
  append := none
  peerMark := none
  command
  history := ∅ ∪ {lonelyRow}

/-- `drop` crashed between its DDL and its catalog transaction. -/
def crashedDrop : World Unit ℕ :=
  worldOf (archivedPartition true true .detached none) [filledFile] 10 .idle

def detachedRelation : Relation Unit := { filledRelation with attached := false }

theorem filled_reachable :
    Reachable encodings false 0 (worldOf filledPartition [] 10 .idle) := by
  refine .head (.ledger _ (.create firstPartition ⟨nofun, rfl, rfl, rfl, rfl, rfl⟩
    (fun q hq => absurd hq not_mem_nil) fun q hq => absurd hq not_mem_nil)) ?_
  refine .head (.ledger _ (.draw 3 4 rfl (by decide) (by decide))) ?_
  refine .head (.ledger _ (.commit lonelyRow rfl ?_)) ?_
  · intro row hrow
    obtain rfl := Finset.mem_singleton.mp hrow
    exact ⟨firstPartition, mem_singleton.mpr rfl, rfl⟩
  exact .single (.ledger _ (.raise 10 (by decide)))

theorem archived_reachable :
    Reachable encodings false 0
      (worldOf (archivedPartition false false .attached (some filledRelation)) [filledFile] 10
        .idle) := by
  have hmem : filledPartition ∈ [filledPartition] := mem_singleton_self _
  refine filled_reachable.trans ?_
  refine .head (.archive filledPartition _ hmem
    (.begin false rfl rfl rfl (by decide) (.inl rfl))) ?_
  refine .head (.archive filledPartition _ hmem
    (.read filledRelation rfl rfl rfl rfl (fun q hq => absurd hq.symm (Option.some_ne_none q))
      fun q hq => absurd hq not_mem_nil)) ?_
  refine .head (.archive filledPartition _ hmem
    (.streamed _ filledRelation.rows filledRelation 0 rfl rfl (Finset.Subset.refl _)
      (Finset.Subset.refl _))) ?_
  refine .head (.archive filledPartition _ hmem (.write filledFile rfl)) ?_
  exact .single (.archive filledPartition _ hmem (.record filledFile rfl rfl))

theorem sealed_reachable :
    Reachable encodings false 0
      (worldOf (archivedPartition true true .attached (some filledRelation)) [filledFile] 10
        .idle) := by
  let archived := archivedPartition false false .attached (some filledRelation)
  have hmem : archived ∈ [archived] := mem_singleton_self _
  have hlinks : ∀ command, (worldOf archived [filledFile] 10 command).Links filledFile.manifest 10 :=
    fun _ => ⟨rfl, rfl, fun q hq => absurd hq.symm (Option.some_ne_none q)⟩
  refine archived_reachable.trans ?_
  refine .head (.verify archived _ hmem
    (.begin filledFile (.ofFile encodings filledFile) rfl rfl (mem_singleton_self _) rfl
      ⟨⟨rfl, rfl⟩, rfl, rfl, rfl, rfl, rfl, rfl⟩ (hlinks _) (by decide))) ?_
  refine .head (.verify archived _ hmem (.read filledFile filledRelation rfl rfl rfl)) ?_
  refine .head (.verify archived _ hmem
    (.compare filledFile _ filledRelation.rows filledRelation rfl rfl (Finset.Subset.refl _)
      (Finset.Subset.refl _) rfl rfl)) ?_
  refine .head (.verify archived _ hmem
    (.record filledFile (.ofFile encodings filledFile) rfl (hlinks _) rfl rfl)) ?_
  exact .single (.ledger _ (.sealAudits 0))

theorem detached_reachable :
    Reachable encodings false 0
      (worldOf (archivedPartition true true .detached (some detachedRelation)) [filledFile] 10
        .idle) := by
  let live := archivedPartition true true .attached (some filledRelation)
  refine sealed_reachable.trans ?_
  refine .head (.detach live _ (mem_singleton_self _)
    (.begin filledRelation (.ofFile encodings filledFile) rfl rfl
      ⟨rfl, rfl, rfl, rfl, rfl, by decide, nofun⟩)) ?_
  refine .head (.detach live _ (mem_singleton_self _) (.ddl rfl)) ?_
  exact .single (.detach (archivedPartition true true .attached (some detachedRelation)) _
    (mem_singleton_self _) (.record rfl))

theorem crashedDrop_reachable : Reachable encodings false 0 crashedDrop := by
  let detached := archivedPartition true true .detached (some detachedRelation)
  refine detached_reachable.trans ?_
  refine .head (.drop detached _ (mem_singleton_self _)
    (.begin filledFile (.ofFile encodings filledFile) detachedRelation rfl nofun rfl rfl rfl
      (mem_singleton_self _) rfl ⟨⟨rfl, rfl⟩, rfl, rfl, rfl, rfl, rfl, rfl⟩ rfl rfl)) ?_
  refine .head (.drop detached _ (mem_singleton_self _) (.ddl rfl)) ?_
  exact .single .crash

end QbitPrism.Retention
