import Mathlib
import QbitPrism.Retention.Commands

/-!
# What the catalog records

Three facts of a catalog: where the rows of each partition are, that no append can reach a
verified partition, and that a verified archive links to the verified archive below it.
-/
namespace QbitPrism.Retention
open List

variable {B H : Type*} {sha : Sha256 B H} {files : List (ArchiveFile B H)}
  {next : ℤ} {append : Option ℤ} {catalog : List (Partition B H)} {history : Finset (LedgerRow B)}
  {p q : Partition B H}

variable {archive : RecordedArchive H} {file : ArchiveFile B H} {holds : ArchiveFile B H → Prop}
  {manifest : ArchiveManifest H} {upperSeq : ℤ}

theorem ArchiveFile.Recorded.rows_eq {f g : ArchiveFile B H} (hf : f.Recorded sha archive p)
    (hg : g.Recorded sha archive q) : f.rows = g.rows := by
  have hmanifest : f.manifest = g.manifest :=
    sha.manifest_injective (hf.digest.trans hg.digest.symm)
  apply sha.rows_injective
  rw [← hf.reads.digest, ← hg.reads.digest, hmanifest]

/-- The share sequence and the append in flight are past `upper`. -/
structure Beyond (next : ℤ) (append : Option ℤ) (upper : ℤ) : Prop where
  sequence : upper ≤ next
  inFlight : ∀ seq, append = some seq → upper ≤ seq

/-- Every row the partition ever held is in its recorded archive. -/
def Archived (sha : Sha256 B H) (p : Partition B H) : Prop :=
  ∀ archive, ∀ file : ArchiveFile B H, p.archive = some archive → file.Recorded sha archive p →
    p.committed ⊆ file.rows

/-- The partition's table holds every row the partition ever held and every row of its archive. -/
def Standing (sha : Sha256 B H) (p : Partition B H) : Prop :=
  ∃ relation, p.relation = some relation ∧ p.committed ⊆ relation.rows ∧
    ∀ archive, ∀ file : ArchiveFile B H, p.archive = some archive → file.Recorded sha archive p →
      file.rows ⊆ relation.rows

structure Sound (sha : Sha256 B H) (next : ℤ) (append : Option ℤ) (p : Partition B H) : Prop where
  ordered : ∀ lower, p.lowerSeq = some lower → lower < p.upperSeq
  recorded : p.state = .attached → Standing sha p
  verified : p.state ≠ .attached → p.verified = true
  apart : p.state ≠ .attached → p.isAttached = false
  archived : p.state ≠ .attached → Archived sha p
  passed : p.verified = true → Beyond next append p.upperSeq

/-- The manifest names the recorded archive of the verified partition that ends at `lowerSeq`,
or is the first one. -/
def LinksDown (catalog : List (Partition B H)) (lowerSeq : Option ℤ)
    (manifest : ArchiveManifest H) : Prop :=
  match lowerSeq with
  | none => manifest.previousManifestSha256 = none
  | some lower => ∃ q ∈ catalog, q.upperSeq = lower ∧ q.verified = true ∧
      ∃ archive, q.archive = some archive ∧
        manifest.previousManifestSha256 = some archive.archiveManifestSha256

def OnFile (sha : Sha256 B H) (files : List (ArchiveFile B H)) (p : Partition B H)
    (holds : ArchiveFile B H → Prop) : Prop :=
  ∃ archive file, p.archive = some archive ∧ file ∈ files ∧ file.Recorded sha archive p ∧ holds file

structure Records (sha : Sha256 B H) (files : List (ArchiveFile B H)) (next : ℤ)
    (append : Option ℤ) (catalog : List (Partition B H)) (history : Finset (LedgerRow B)) :
    Prop where
  names : ∀ p ∈ catalog, ∀ q ∈ catalog, p.name = q.name → p = q
  sound : ∀ p ∈ catalog, Sound sha next append p
  linked : ∀ p ∈ catalog, p.verified = true →
    OnFile sha files p fun file => LinksDown catalog p.lowerSeq file.manifest
  housed : ∀ row ∈ history, ∃ p ∈ catalog, row ∈ p.committed

/-- The catalog's record of a partition's bounds and archive is the same. -/
structure SameRecord (p q : Partition B H) : Prop where
  name : q.name = p.name
  lower : q.lowerSeq = p.lowerSeq
  upper : q.upperSeq = p.upperSeq
  archive : q.archive = p.archive

/-- A partition with another relation or state, and everything the links read kept. -/
structure Carries (p q : Partition B H) : Prop extends SameRecord p q where
  verified : p.verified = true → q.verified = true
  committed : p.committed ⊆ q.committed

theorem Carries.refl (p : Partition B H) : Carries p p :=
  ⟨⟨rfl, rfl, rfl, rfl⟩, id, Finset.Subset.refl _⟩

namespace SameRecord

section
variable (h : SameRecord p q)
include h

theorem recorded : file.Recorded sha archive q ↔ file.Recorded sha archive p := by
  constructor
  · intro hfile
    exact { hfile with
      name := hfile.name.trans h.name
      lower := hfile.lower.trans h.lower
      upper := hfile.upper.trans h.upper }
  · intro hfile
    exact { hfile with
      name := hfile.name.trans h.name.symm
      lower := hfile.lower.trans h.lower.symm
      upper := hfile.upper.trans h.upper.symm }

theorem onFile (hp : OnFile sha files p holds) : OnFile sha files q holds := by
  obtain ⟨archive, file, harchive, hfile, hrecorded, hholds⟩ := hp
  exact ⟨archive, file, h.archive.trans harchive, hfile, h.recorded.mpr hrecorded, hholds⟩

theorem archived (hcommitted : q.committed ⊆ p.committed)
    (hp : Archived sha p) : Archived sha q := by
  intro archive file harchive hfile
  exact hcommitted.trans
    (hp archive file (h.archive.symm.trans harchive) (h.recorded.mp hfile))

theorem standing (hp : Standing sha p) (hgrows : ∀ relation, p.relation = some relation → p.committed ⊆ relation.rows
    → ∃ grown, q.relation = some grown ∧ q.committed ⊆ grown.rows ∧ relation.rows ⊆ grown.rows) :
    Standing sha q := by
  obtain ⟨relation, hrelation, hcommitted, harchived⟩ := hp
  obtain ⟨grown, hgrown, hcommitted', hrows⟩ := hgrows relation hrelation hcommitted
  refine ⟨grown, hgrown, hcommitted', ?_⟩
  intro archive file harchive hfile
  exact (harchived archive file (h.archive.symm.trans harchive) (h.recorded.mp hfile)).trans hrows

end

end SameRecord

theorem Archived.update (h : Archived sha p) (isSealed : Bool) (state : PartitionState)
    (relation : Option (Relation B)) : Archived sha { p with isSealed, state, relation } :=
  SameRecord.archived (p := p) ⟨rfl, rfl, rfl, rfl⟩ (Finset.Subset.refl _) h

theorem Sound.of_attached (hstate : p.state = .attached) (hordered : ∀ lower, p.lowerSeq = some lower → lower < p.upperSeq)
    (hstanding : Standing sha p) (hpassed : p.verified = true → Beyond next append p.upperSeq) :
    Sound sha next append p :=
  ⟨hordered, fun _ => hstanding, fun hgone => absurd hstate hgone, fun hgone => absurd hstate hgone,
    fun hgone => absurd hstate hgone, hpassed⟩

theorem Sound.keep (h : Sound sha next append p) (hsame : SameRecord p q) (hstate : q.state = p.state)
    (hcommitted : q.committed = p.committed)
    (hrows : ∀ relation, p.relation = some relation → ∃ kept, q.relation = some kept ∧ kept.rows = relation.rows)
    (happart : p.isAttached = false → q.isAttached = false) (hverified : q.state ≠ .attached → q.verified = true)
    (hpassed : q.verified = true → Beyond next append q.upperSeq) :
    Sound sha next append q where
  ordered := by
    rw [hsame.lower, hsame.upper]
    exact h.ordered
  recorded := by
    intro hattached
    apply hsame.standing (h.recorded (hstate ▸ hattached))
    intro relation hrelation hheld
    obtain ⟨kept, hkept, heq⟩ := hrows relation hrelation
    rw [hcommitted]
    exact ⟨kept, hkept, heq ▸ hheld, heq.symm.subset⟩
  verified := hverified
  apart := fun hgone => happart (h.apart (hstate ▸ hgone))
  archived := fun hgone => hsame.archived hcommitted.subset (h.archived (hstate ▸ hgone))
  passed := hpassed

theorem OnFile.imp {holds' : ArchiveFile B H → Prop} (himp : ∀ file, holds file → holds' file)
    (hp : OnFile sha files p holds) : OnFile sha files p holds' := by
  obtain ⟨archive, file, harchive, hfile, hrecorded, hholds⟩ := hp
  exact ⟨archive, file, harchive, hfile, hrecorded, himp file hholds⟩

theorem LinksDown.keep {after : List (Partition B H)} {lowerSeq : Option ℤ} (h : LinksDown catalog lowerSeq manifest)
    (hkeep : ∀ q ∈ catalog, q.verified = true → lowerSeq = some q.upperSeq → ∃ r ∈ after, r.upperSeq = q.upperSeq ∧ r.verified = true ∧ r.archive = q.archive) :
    LinksDown after lowerSeq manifest := by
  cases lowerSeq with
  | none => exact h
  | some lower =>
    obtain ⟨q, hq, hupper, hverified, archive, harchive, hlink⟩ := h
    obtain ⟨r, hr, hrupper, hrverified, hrarchive⟩ := hkeep q hq hverified (by rw [hupper])
    exact ⟨r, hr, hrupper.trans hupper, hrverified, archive, hrarchive.trans harchive, hlink⟩

namespace Records

section
variable (h : Records sha files next append catalog history)
include h

theorem map (g : Partition B H → Partition B H) {next' : ℤ} {append' : Option ℤ} {history' : Finset (LedgerRow B)}
    (hcarries : ∀ p ∈ catalog, Carries p (g p)) (hsound : ∀ p ∈ catalog, Sound sha next' append' (g p)) (hlinked : ∀ p
    ∈ catalog, (g p).verified = true → OnFile sha files p fun file => LinksDown catalog p.lowerSeq file.manifest)
    (hhoused : ∀ row ∈ history', row ∈ history ∨ ∃ p ∈ catalog, row ∈ (g p).committed) :
    Records sha files next' append' (catalog.map g) history' where
  names := by
    intro _ hfst _ hsnd hname
    obtain ⟨p, hp, rfl⟩ := mem_map.mp hfst
    obtain ⟨q, hq, rfl⟩ := mem_map.mp hsnd
    rw [(hcarries p hp).name, (hcarries q hq).name] at hname
    rw [h.names p hp q hq hname]
  sound := by
    intro _ hmem
    obtain ⟨p, hp, rfl⟩ := mem_map.mp hmem
    exact hsound p hp
  linked := by
    intro _ hmem hverified
    obtain ⟨p, hp, rfl⟩ := mem_map.mp hmem
    have hc := hcarries p hp
    apply (hc.onFile (hlinked p hp hverified)).imp
    intro file hlinks
    rw [hc.lower]
    apply hlinks.keep
    intro q hq hqverified _
    have hcq := hcarries q hq
    exact ⟨g q, mem_map_of_mem hq, hcq.upper, hcq.verified hqverified, hcq.archive⟩
  housed := by
    intro row hrow
    rcases hhoused row hrow with hrow | ⟨p, hp, hrow⟩
    · obtain ⟨p, hp, hrow⟩ := h.housed row hrow
      exact ⟨g p, mem_map_of_mem hp, (hcarries p hp).committed hrow⟩
    · exact ⟨g p, mem_map_of_mem hp, hrow⟩

theorem at_replaced {motive : Partition B H → Partition B H → Prop} {f : Partition B H → Partition B H}
    (hp : p ∈ catalog) (hown : motive p (f p)) (hothers : ∀ q ∈ catalog, motive q q) :
    ∀ q ∈ catalog, motive q (if q.name = p.name then f q else q) := by
  intro q hq
  by_cases hname : q.name = p.name
  · rw [if_pos hname, h.names q hq p hp hname]
    exact hown
  · rw [if_neg hname]
    exact hothers q hq

theorem replace (hp : p ∈ catalog) (f : Partition B H → Partition B H) (hcarries : Carries p (f p))
    (hsound : Sound sha next append (f p))
    (hlinked : (f p).verified = true → OnFile sha files p fun file => LinksDown catalog p.lowerSeq file.manifest) :
    Records sha files next append
      (catalog.map fun q => if q.name = p.name then f q else q) history := by
  apply h.map
  · exact h.at_replaced hp hcarries fun q _ => Carries.refl q
  · exact h.at_replaced hp hsound h.sound
  · exact h.at_replaced (motive := fun q r => r.verified = true →
      OnFile sha files q fun file => LinksDown catalog q.lowerSeq file.manifest) hp hlinked h.linked
  · exact fun row hrow => .inl hrow

/-- An update of the partition's state and relation. -/
theorem update (hp : p ∈ catalog) {state : Partition B H → PartitionState}
    {relation : Partition B H → Option (Relation B)}
    (hsound : Sound sha next append { p with state := state p, relation := relation p }) :
    Records sha files next append
      (catalog.map fun q => if q.name = p.name then { q with state := state q, relation := relation q } else q)
      history :=
  h.replace hp _ ⟨⟨rfl, rfl, rfl, rfl⟩, id, Finset.Subset.refl _⟩ hsound (h.linked p hp)

theorem add [DecidableEq B] {rows : Finset (LedgerRow B)}
    (hname : ∀ q ∈ catalog, q.name ≠ p.name) (hnew : IsNew p rows) :
    Records sha files next append (catalog ++ [p]) (history ∪ rows) where
  names := by
    intro q hq r hr heq
    rw [mem_append, mem_singleton] at hq hr
    rcases hq with hq | rfl <;> rcases hr with hr | rfl
    · exact h.names q hq r hr heq
    · exact absurd heq (hname q hq)
    · exact absurd heq.symm (hname r hr)
    · rfl
  sound := by
    intro q hq
    rw [mem_append, mem_singleton] at hq
    rcases hq with hq | rfl
    · exact h.sound q hq
    · refine .of_attached hnew.state hnew.ordered ⟨_, hnew.relation, hnew.committed.subset, ?_⟩ ?_
      · intro archive file harchive
        rw [hnew.archive] at harchive
        cases harchive
      · intro hverified
        rw [hnew.verified] at hverified
        cases hverified
  linked := by
    intro q hq hverified
    rw [mem_append, mem_singleton] at hq
    rcases hq with hq | rfl
    · apply (h.linked q hq hverified).imp
      intro file hlinks
      exact hlinks.keep fun r hr hrverified _ =>
        ⟨r, mem_append_left _ hr, rfl, hrverified, rfl⟩
    · rw [hnew.verified] at hverified
      cases hverified
  housed := by
    intro row hrow
    rcases Finset.mem_union.mp hrow with hrow | hrow
    · obtain ⟨q, hq, hrow⟩ := h.housed row hrow
      exact ⟨q, mem_append_left _ hq, hrow⟩
    · exact ⟨p, mem_append_right _ (mem_singleton_self p), hnew.committed ▸ hrow⟩

theorem later {files' : List (ArchiveFile B H)} {next' : ℤ} {append' : Option ℤ} (hfiles : files ⊆ files')
    (hbeyond : ∀ upper, Beyond next append upper → Beyond next' append' upper) :
    Records sha files' next' append' catalog history where
  names := h.names
  sound := fun p hp => { h.sound p hp with passed := fun hv => hbeyond _ ((h.sound p hp).passed hv) }
  linked := by
    intro p hp hverified
    obtain ⟨archive, file, harchive, hfile, hholds⟩ := h.linked p hp hverified
    exact ⟨archive, file, harchive, hfiles hfile, hholds⟩
  housed := h.housed

end

end Records

theorem highest_mem (h : highest catalog = some q) : q ∈ catalog := by
  induction catalog with
  | nil => cases h
  | cons p rest ih =>
    rw [highest] at h
    split at h
    · cases h
      exact mem_cons_self
    · rename_i r hr
      split at h
      · cases h
        exact mem_cons_self
      · cases h
        exact mem_cons_of_mem p (ih hr)

theorem archivedPredecessor_archive (h : archivedPredecessor catalog upperSeq = some q) :
    q ∈ catalog ∧ ∃ archive, q.archive = some archive := by
  obtain ⟨hq, hkept⟩ := mem_filter.mp (highest_mem h)
  rw [Bool.and_eq_true] at hkept
  exact ⟨hq, Option.isSome_iff_exists.mp hkept.1⟩

theorem chainIsAdjacent_iff {previous lower : Option ℤ} :
    chainIsAdjacent previous lower = true ↔ previous = lower := by
  cases previous <;> cases lower <;> simp [chainIsAdjacent]

theorem World.Links.down {s : World B H} (h : s.Links manifest upperSeq) :
    LinksDown s.catalog manifest.lowerSeq manifest := by
  obtain ⟨hprevious, hupper⟩ := Prod.mk.inj h.link
  rw [← chainIsAdjacent_iff.mp h.adjacent, hupper]
  cases hq : archivedPredecessor s.catalog upperSeq with
  | none =>
    rw [hq] at hprevious
    exact hprevious
  | some q =>
    obtain ⟨hmem, archive, harchive⟩ := archivedPredecessor_archive hq
    refine ⟨q, hmem, rfl, h.verified q hq, archive, harchive, ?_⟩
    rw [hprevious, hq, Option.bind_some, harchive, Option.map_some]

theorem recordArchive_other {name : ℕ} (hname : q.name ≠ name) :
    recordArchive sha file name upperSeq q = q ∨
      (recordArchive sha file name upperSeq q = { q with verified := false } ∧
        q.archive.isSome = true ∧ upperSeq < q.upperSeq ∧ q.state = .attached) := by
  rw [recordArchive, if_neg hname]
  split
  · rename_i h
    simp only [Bool.and_eq_true, decide_eq_true_eq] at h
    exact .inr ⟨rfl, h.1.1, h.1.2, h.2⟩
  · exact .inl rfl

/-- The archive of a partition is written and read back, and its table still has those rows. -/
structure Writing (sha : Sha256 B H) (file : ArchiveFile B H) (p : Partition B H) : Prop where
  recorded : file.Recorded sha (.ofFile sha file) p
  within : ∃ relation, p.relation = some relation ∧ file.rows ⊆ relation.rows

theorem Records.record (h : Records sha files next append catalog history) (hp : p ∈ catalog)
    (hstate : p.state = .attached) (hleft : ∀ q ∈ catalog, q.state ≠ .attached → q.upperSeq ≤ p.upperSeq)
    (hwriting : Writing sha file p) :
    Records sha files next append (catalog.map (recordArchive sha file p.name p.upperSeq))
      history where
  names := by
    intro _ hfst _ hsnd hname
    obtain ⟨q, hq, rfl⟩ := mem_map.mp hfst
    obtain ⟨r, hr, rfl⟩ := mem_map.mp hsnd
    have hkeeps : ∀ q : Partition B H, (recordArchive sha file p.name p.upperSeq q).name = q.name := by
      intro q
      unfold recordArchive
      split_ifs <;> rfl
    rw [hkeeps, hkeeps] at hname
    rw [h.names q hq r hr hname]
  sound := by
    intro _ hmem
    obtain ⟨q, hq, rfl⟩ := mem_map.mp hmem
    by_cases hname : q.name = p.name
    · obtain rfl := h.names q hq p hp hname
      obtain ⟨relation, hrelation, hcommitted, -⟩ := (h.sound q hq).recorded hstate
      obtain ⟨live, hlive, hrows⟩ := hwriting.within
      obtain rfl := Option.some.inj (hlive.symm.trans hrelation)
      rw [recordArchive, if_pos rfl]
      refine .of_attached hstate (h.sound q hq).ordered ⟨live, hrelation, hcommitted, ?_⟩ nofun
      intro archive other harchive hother
      cases harchive
      rw [hother.rows_eq hwriting.recorded]
      exact hrows
    · have hsound := h.sound q hq
      rcases recordArchive_other hname with heq | ⟨heq, -, -, hattached⟩
      · rw [heq]
        exact hsound
      · rw [heq]
        exact hsound.keep ⟨rfl, rfl, rfl, rfl⟩ rfl rfl (fun relation h => ⟨relation, h, rfl⟩) id
          (fun hgone => absurd hattached hgone) nofun
  linked := by
    intro _ hmem hverified
    obtain ⟨q, hq, rfl⟩ := mem_map.mp hmem
    by_cases hname : q.name = p.name
    · rw [recordArchive, if_pos hname] at hverified
      cases hverified
    · rcases recordArchive_other hname with heq | ⟨heq, -⟩
      · rw [heq] at hverified ⊢
        have hlinked := h.linked q hq hverified
        -- A partition that keeps its verification lies below, and so does what it links to.
        have hbelow : q.upperSeq ≤ p.upperSeq := by
          by_contra habove
          rw [not_le] at habove
          obtain ⟨archive, -, harchive, -⟩ := hlinked
          rw [recordArchive, if_neg hname, if_pos] at heq
          · rw [← heq] at hverified
            cases hverified
          · have hattached : q.state = .attached := by
              by_contra hgone
              exact absurd (hleft q hq hgone) (not_le.mpr habove)
            simp [harchive, habove, hattached]
        apply hlinked.imp
        intro older hlinks
        apply hlinks.keep
        intro r hr hrverified hlower
        have hlt := (h.sound q hq).ordered _ hlower
        have hne : r.name ≠ p.name := by
          intro hrname
          rw [h.names r hr p hp hrname] at hlt
          omega
        rcases recordArchive_other hne with hr' | ⟨-, -, habove, -⟩
        · exact ⟨r, hr' ▸ mem_map_of_mem hr, rfl, hrverified, rfl⟩
        · omega
      · rw [heq] at hverified
        cases hverified
  housed := by
    intro row hrow
    obtain ⟨q, hq, hrow⟩ := h.housed row hrow
    refine ⟨recordArchive sha file p.name p.upperSeq q, mem_map_of_mem hq, ?_⟩
    unfold recordArchive
    split_ifs <;> exact hrow

end QbitPrism.Retention
