import Mathlib
import QbitPrism.Retention.Records

/-!
# What a command has established

A command reads its conditions in one step and relies on them in a later one, with appends and
pulled rows in between. No step of the ledger undoes what a command has established.
-/
namespace QbitPrism.Retention

variable {B H : Type*} {sha : Sha256 B H} {dualWriter : Bool} {s t : World B H}
  {p q : Partition B H}

/-- What a detach that passed its plan relies on. -/
structure Leaving (sha : Sha256 B H) (dualWriter : Bool) (peerMark : Option ℤ)
    (p : Partition B H) : Prop where
  verified : p.verified = true
  archived : Archived sha p
  mark : dualWriter = true → ∃ mark, peerMark = some mark ∧ p.upperSeq - 1 ≤ mark

/-- The archive under verification is the recorded one. -/
def Comparing (sha : Sha256 B H) (file : ArchiveFile B H) (p : Partition B H) : Prop :=
  ∃ archive, p.archive = some archive ∧ file.Recorded sha archive p

def NoneLeft (catalog : List (Partition B H)) (upperSeq : ℤ) : Prop :=
  ∀ q ∈ catalog, q.state ≠ .attached → q.upperSeq ≤ upperSeq

def Command.partition : Command B H → Option ℕ
  | .idle => none
  | .archiveDrain name | .archiveStream name _ | .archiveWrite name _ | .archiveRecord name _
  | .verifyDrain name _ | .verifyStream name _ _ | .verifyRecord name _
  | .detach name | .detachRecord name | .drop name | .dropRecord name => some name

/-- What the command under way has established of its partition. -/
def Established (sha : Sha256 B H) (dualWriter : Bool) (s : World B H) (command : Command B H)
    (p : Partition B H) : Prop :=
  match command with
  | .archiveStream _ _ => NoneLeft s.catalog p.upperSeq
  | .archiveWrite _ file | .archiveRecord _ file =>
    NoneLeft s.catalog p.upperSeq ∧ Writing sha file p
  | .verifyDrain _ file => file ∈ s.files ∧ Comparing sha file p ∧ p.upperSeq ≤ s.nextShareSeq
  | .verifyStream _ file _ | .verifyRecord _ file =>
    file ∈ s.files ∧ Comparing sha file p ∧ Beyond s.nextShareSeq s.append p.upperSeq
  | .detach _ => Leaving sha dualWriter s.peerMark p
  | .detachRecord _ => Leaving sha dualWriter s.peerMark p ∧ p.isAttached = false
  | .drop _ => p.state ≠ .attached
  | .idle | .archiveDrain _ | .dropRecord _ => True

structure Inv (sha : Sha256 B H) (dualWriter : Bool) (s : World B H) : Prop where
  records : Records sha s.files s.nextShareSeq s.append s.catalog s.history
  phase : ∀ name, s.command.partition = some name →
    ∃ p ∈ s.catalog, p.name = name ∧ Established sha dualWriter s s.command p

variable {command : Command B H} {file : ArchiveFile B H} {catalog : List (Partition B H)}

theorem Inv.established (h : Inv sha dualWriter s) (hp : p ∈ s.catalog) (hcommand : s.command = command)
    (hname : command.partition = some p.name) : Established sha dualWriter s command p := by
  subst hcommand
  obtain ⟨q, hq, hqname, hestablished⟩ := h.phase _ hname
  rw [h.records.names p hp q hq hqname.symm]
  exact hestablished

/-- The partition as the ledger's own steps leave it: its table may grow. -/
structure Grown (sha : Sha256 B H) (dualWriter : Bool) (mark mark' : Option ℤ)
    (p q : Partition B H) : Prop extends SameRecord p q where
  state : q.state = p.state
  isAttached : q.isAttached = p.isAttached
  rows : ∀ relation, p.relation = some relation →
    ∃ grown, q.relation = some grown ∧ relation.rows ⊆ grown.rows
  leaving : Leaving sha dualWriter mark p → Leaving sha dualWriter mark' q

theorem Writing.grown {mark mark' : Option ℤ} (h : Grown sha dualWriter mark mark' p q) (hp : Writing sha file p) :
    Writing sha file q := by
  obtain ⟨relation, hrelation, hrows⟩ := hp.within
  obtain ⟨grown, hgrown, hmore⟩ := h.rows relation hrelation
  exact ⟨h.recorded.mpr hp.recorded, grown, hgrown, hrows.trans hmore⟩

theorem Comparing.same (h : SameRecord p q) (hp : Comparing sha file p) : Comparing sha file q := by
  obtain ⟨archive, harchive, hfile⟩ := hp
  exact ⟨archive, h.archive.trans harchive, h.recorded.mpr hfile⟩

theorem Established.grown (h : Established sha dualWriter s command p) (hfiles : t.files = s.files)
    (hnext : s.nextShareSeq ≤ t.nextShareSeq)
    (hbeyond : ∀ upper, Beyond s.nextShareSeq s.append upper → Beyond t.nextShareSeq t.append upper)
    (hleft : ∀ upper, NoneLeft s.catalog upper → NoneLeft t.catalog upper)
    (hgrown : Grown sha dualWriter s.peerMark t.peerMark p q) : Established sha dualWriter t command q := by
  unfold Established at h ⊢
  rw [hfiles]
  cases command with
  | idle | archiveDrain | dropRecord => trivial
  | archiveStream name start => exact hgrown.upper ▸ hleft _ h
  | archiveWrite | archiveRecord => exact ⟨hgrown.upper ▸ hleft _ h.1, h.2.grown hgrown⟩
  | verifyDrain name file =>
    exact ⟨h.1, h.2.1.same hgrown.toSameRecord, hgrown.upper ▸ h.2.2.trans hnext⟩
  | verifyStream | verifyRecord =>
    exact ⟨h.1, h.2.1.same hgrown.toSameRecord, hgrown.upper ▸ hbeyond _ h.2.2⟩
  | detach name => exact hgrown.leaving h
  | detachRecord name => exact ⟨hgrown.leaving h.1, hgrown.isAttached.trans h.2⟩
  | drop name => exact hgrown.state ▸ h

theorem Inv.ledger (h : Inv sha dualWriter s)
    (hrecords : Records sha t.files t.nextShareSeq t.append t.catalog t.history) (hcommand : t.command = s.command)
    (hfiles : t.files = s.files) (hnext : s.nextShareSeq ≤ t.nextShareSeq)
    (hbeyond : ∀ upper, Beyond s.nextShareSeq s.append upper → Beyond t.nextShareSeq t.append upper)
    (hleft : ∀ upper, NoneLeft s.catalog upper → NoneLeft t.catalog upper)
    (hgrown : ∀ p ∈ s.catalog, ∃ q ∈ t.catalog, Grown sha dualWriter s.peerMark t.peerMark p q) :
    Inv sha dualWriter t := by
  refine ⟨hrecords, fun name hname => ?_⟩
  rw [hcommand] at hname ⊢
  obtain ⟨p, hp, hpname, hestablished⟩ := h.phase name hname
  obtain ⟨q, hq, hg⟩ := hgrown p hp
  exact ⟨q, hq, hg.name.trans hpname, hestablished.grown hfiles hnext hbeyond hleft hg⟩

theorem Grown.refl (mark : Option ℤ) (p : Partition B H) : Grown sha dualWriter mark mark p p :=
  ⟨⟨rfl, rfl, rfl, rfl⟩, rfl, rfl, fun relation h => ⟨relation, h, Finset.Subset.refl _⟩, id⟩

theorem NoneLeft.map {g : Partition B H → Partition B H} {upper : ℤ} (h : NoneLeft catalog upper)
    (hg : ∀ p ∈ catalog, (g p).state = p.state ∧ (g p).upperSeq = p.upperSeq) : NoneLeft (catalog.map g) upper := by
  intro _ hmem hstate
  obtain ⟨p, hp, rfl⟩ := List.mem_map.mp hmem
  rw [(hg p hp).1] at hstate
  rw [(hg p hp).2]
  exact h p hp hstate

theorem NoneLeft.add {rows : Finset (LedgerRow B)} {upper : ℤ} (h : NoneLeft catalog upper) (hnew : IsNew p rows) :
    NoneLeft (catalog ++ [p]) upper := by
  intro q hq hstate
  rw [List.mem_append, List.mem_singleton] at hq
  rcases hq with hq | rfl
  · exact h q hq hstate
  · exact absurd hnew.state hstate

theorem Partition.routes_of_apart (h : p.isAttached = false) (row : LedgerRow B) :
    p.routes row = false := by
  unfold Partition.routes
  unfold Partition.isAttached at h
  split <;> simp_all

theorem Partition.routes_above {row : LedgerRow B} (h : p.upperSeq ≤ row.shareSeq) :
    p.routes row = false := by
  have hcovers : p.covers row.shareSeq = false := by
    simp [Partition.covers, h]
  unfold Partition.routes
  split <;> simp [hcovers]

section Receive

variable [DecidableEq B] {rows : Finset (LedgerRow B)}

theorem Partition.receive_eq_self (h : ∀ row ∈ rows, p.routes row = false) :
    p.receive rows = p := by
  have hempty : (rows.filter fun row => p.routes row = true) = ∅ := by
    apply Finset.filter_eq_empty_iff.mpr
    intro row hrow
    simp [h row hrow]
  unfold Partition.receive
  simp [hempty]

theorem Partition.receive_carries (rows : Finset (LedgerRow B)) (p : Partition B H) :
    Carries p (p.receive rows) :=
  ⟨⟨rfl, rfl, rfl, rfl⟩, id, Finset.subset_union_left⟩

theorem Partition.receive_isAttached (rows : Finset (LedgerRow B)) (p : Partition B H) :
    (p.receive rows).isAttached = p.isAttached := by
  unfold Partition.isAttached Partition.receive
  cases p.relation <;> rfl

theorem Sound.receive {next next' : ℤ} {append append' : Option ℤ} (h : Sound sha next append p)
    (hbeyond : ∀ upper, Beyond next append upper → Beyond next' append' upper) :
    Sound sha next' append' (p.receive rows) := by
  have hpassed : p.verified = true → Beyond next' append' p.upperSeq :=
    fun hverified => hbeyond _ (h.passed hverified)
  by_cases hstate : p.state = .attached
  · refine .of_attached hstate h.ordered ?_ hpassed
    apply (p.receive_carries rows).standing (h.recorded hstate)
    intro relation hrelation hcommitted
    refine ⟨_, congrArg (Option.map _) hrelation, ?_, Finset.subset_union_left⟩
    exact Finset.union_subset_union_left hcommitted
  · rw [Partition.receive_eq_self fun row _ => Partition.routes_of_apart (h.apart hstate) row]
    exact { h with passed := hpassed }

theorem Inv.receive (h : Inv sha dualWriter s) (hrouted : s.Routed rows) (append mark : Option ℤ)
    (hbeyond : ∀ upper, Beyond s.nextShareSeq s.append upper → Beyond s.nextShareSeq append upper)
    (hmark : ∀ earlier, s.peerMark = some earlier → ∃ later, mark = some later ∧ earlier ≤ later)
    (habove : ∀ p ∈ s.catalog, Leaving sha dualWriter s.peerMark p → ∀ row ∈ rows, p.upperSeq ≤ row.shareSeq) :
    Inv sha dualWriter { s.receive rows with append := append, peerMark := mark } := by
  refine h.ledger ?records rfl rfl le_rfl hbeyond ?left ?grown
  case left =>
    intro upper hnone
    exact hnone.map fun p _ => ⟨rfl, rfl⟩
  case grown =>
    intro p hp
    refine ⟨p.receive rows, List.mem_map_of_mem hp, (p.receive_carries rows).toSameRecord, rfl,
      p.receive_isAttached rows, ?_, ?_⟩
    · intro relation hrelation
      exact ⟨_, congrArg (Option.map _) hrelation, Finset.subset_union_left⟩
    · intro hleaving
      rw [Partition.receive_eq_self fun row hrow => Partition.routes_above (habove p hp hleaving row hrow)]
      refine { hleaving with mark := fun hdual => ?_ }
      obtain ⟨earlier, hearlier, hle⟩ := hleaving.mark hdual
      obtain ⟨later, hlater, hmore⟩ := hmark earlier hearlier
      exact ⟨later, hlater, hle.trans hmore⟩
  case records =>
    apply h.records.map
    · exact fun p _ => p.receive_carries rows
    · exact fun p hp => (h.records.sound p hp).receive hbeyond
    · exact fun p hp hverified => h.records.linked p hp hverified
    · intro row hrow
      rcases Finset.mem_union.mp hrow with hrow | hrow
      · exact .inl hrow
      · obtain ⟨p, hp, hroutes⟩ := hrouted row hrow
        exact .inr ⟨p, hp, Finset.mem_union_right _ (Finset.mem_filter.mpr ⟨hrow, hroutes⟩)⟩

end Receive

theorem Leaving.update {mark : Option ℤ} (h : Leaving sha dualWriter mark p) (isSealed : Bool)
    (relation : Option (Relation B)) : Leaving sha dualWriter mark { p with isSealed, relation } :=
  ⟨h.verified, h.archived.update isSealed p.state relation, h.mark⟩

theorem Grown.sealAudits {mark : Option ℤ} (p : Partition B H) :
    Grown sha dualWriter mark mark p { p with isSealed := true } where
  toSameRecord := ⟨rfl, rfl, rfl, rfl⟩
  state := rfl
  isAttached := rfl
  rows := fun relation h => ⟨relation, h, Finset.Subset.refl _⟩
  leaving := fun h => h.update true p.relation

theorem Inv.sequence (h : Inv sha dualWriter s) (next : ℤ) (append : Option ℤ) (hnext : s.nextShareSeq ≤ next)
    (hbeyond : ∀ upper, Beyond s.nextShareSeq s.append upper → Beyond next append upper) :
    Inv sha dualWriter { s with append := append, nextShareSeq := next } := by
  refine h.ledger ?_ rfl rfl hnext hbeyond (fun _ => id) ?_
  · exact h.records.later (List.Subset.refl _) hbeyond
  · exact fun p hp => ⟨p, hp, Grown.refl _ p⟩

theorem Inv.ledgerStep [DecidableEq B] (h : Inv sha dualWriter s) (hstep : LedgerStep dualWriter s t) :
    Inv sha dualWriter t := by
  cases hstep with
  | draw seq next hfree hseq hnext =>
    apply h.sequence next (some seq) (by omega)
    intro upper hbeyond
    refine ⟨by have := hbeyond.sequence; omega, fun drawn hdrawn => ?_⟩
    cases hdrawn
    exact hbeyond.sequence.trans hseq
  | commit row hrow hrouted =>
    apply h.receive hrouted none s.peerMark
    · exact fun upper hbeyond => ⟨hbeyond.sequence, nofun⟩
    · exact fun earlier hearlier => ⟨earlier, hearlier, le_rfl⟩
    · intro p hp hleaving other hother
      obtain rfl := Finset.mem_singleton.mp hother
      exact ((h.records.sound p hp).passed hleaving.verified).inFlight _ hrow
  | abort =>
    apply h.sequence s.nextShareSeq none le_rfl
    exact fun upper hbeyond => ⟨hbeyond.sequence, nofun⟩
  | raise next hnext =>
    apply h.sequence next s.append hnext
    exact fun upper hbeyond => ⟨hbeyond.sequence.trans hnext, hbeyond.inFlight⟩
  | pull rows mark hdual hrows hmark hrouted =>
    apply h.receive hrouted s.append (some mark) (fun _ => id)
    · exact fun earlier hearlier => ⟨mark, rfl, hmark earlier hearlier⟩
    · intro p hp hleaving row hrow
      obtain ⟨earlier, hearlier, hle⟩ := hleaving.mark hdual
      have hlt := hrows row hrow earlier hearlier
      omega
  | create p hnew hname hapart =>
    refine h.ledger ?_ rfl rfl le_rfl (fun _ => id) ?_ ?_
    · simpa using h.records.add hname hnew
    · exact fun upper hnone => hnone.add hnew
    · exact fun q hq => ⟨q, List.mem_append_left _ hq, Grown.refl _ q⟩
  | sealAudits name =>
    refine h.ledger ?records rfl rfl le_rfl (fun _ => id) ?left ?grown
    case left =>
      intro upper hnone
      apply hnone.map
      intro p _
      split <;> exact ⟨rfl, rfl⟩
    case grown =>
      intro p hp
      refine ⟨_, List.mem_map_of_mem hp, ?_⟩
      split
      · exact Grown.sealAudits p
      · exact Grown.refl s.peerMark p
    case records =>
      apply h.records.map
      · intro p _
        split
        · exact ⟨⟨rfl, rfl, rfl, rfl⟩, id, Finset.Subset.refl _⟩
        · exact Carries.refl p
      · intro p hp
        split
        · have hsound := h.records.sound p hp
          exact hsound.keep ⟨rfl, rfl, rfl, rfl⟩ rfl rfl (fun relation h => ⟨relation, h, rfl⟩) id
            hsound.verified hsound.passed
        · exact h.records.sound p hp
      · intro p hp hverified
        split at hverified <;> exact h.records.linked p hp hverified
      · exact fun row hrow => .inl hrow

end QbitPrism.Retention
