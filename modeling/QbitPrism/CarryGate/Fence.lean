import Mathlib
import QbitPrism.CarryGate.Gate

/-!
# What the fence keeps

Carry-paying work at the current revision, taken before a change of the gate, finds the change's
fence pending, its gate closed, or its bump under way. The one hole is a bump that the server
rolled back and the client has not seen fail yet.
-/
namespace QbitPrism.CarryGate
open List

/-- The guard's phases in which a change may be unfenced with the flag clear. -/
def GuardPhase.uncertain : GuardPhase → Bool
  | .swapped => true
  | .raised => true
  | .cleared bump => bump ≠ .committed
  | _ => false

theorem GuardPhase.uncertain_of_trying {phase : GuardPhase} (h : phase.trying = true) :
    phase.uncertain = false := by
  cases phase with
  | fencing | locked | bumped => rfl
  | _ => contradiction

variable {D : Type*} {config : Config D} {shared : Bool} {gate gate' : Gate D}

/-- What holds of carry-paying work built on a snapshot at `revision`, `epoch`. -/
structure Paid (config : Config D) (gate : Gate D) (revision : ℤ) (epoch : ℕ) : Prop where
  revision_le : revision ≤ gate.payoutRevision
  epoch_le : epoch ≤ gate.changes
  unchanged : gate.changes = epoch → gate.carryPaying config = true
  changedOnce : gate.changes = epoch + 1 → gate.carryPaying config = false
  fenced : revision = gate.payoutRevision → epoch < gate.changes →
    gate.fencePending = true ∨
    (gate.guard = .swapped ∨ gate.guard = .raised) ∧ gate.changes = epoch + 1 ∨
    gate.guard = .cleared .undecided ∨ gate.guard = .cleared .rolledBack

structure GateInv (config : Config D) (gate : Gate D) : Prop where
  counts : gate.changes = gate.generation + if gate.guard = .swapped then 1 else 0
  single : config.dualWriter = false → gate.changes = 0
  works : ∀ work ∈ gate.works, work.priorBalancesDigest ≠ config.carryFreePriorDigest →
    Paid config gate work.payoutRevision work.epoch
  exclusive : gate.snapshot ≠ none → gate.guard.holdsSettlement = false
  reading : ∀ revision, gate.snapshot = some (.revision revision) → revision = gate.payoutRevision
  read : ∀ revision paying epoch, gate.snapshot = some (.gate revision paying epoch) →
    paying = true → Paid config gate revision epoch

variable {revision : ℤ} {epoch generation : ℕ} {paying : Bool} {work : Work D} {offer : Offer D}

theorem Paid.pending (h : Paid config gate revision epoch) (hguard : gate.guard.uncertain = false)
    (hrevision : revision = gate.payoutRevision) (hstale : epoch < gate.changes) : gate.fencePending = true := by
  rcases h.fenced hrevision hstale with hpending | ⟨hphase | hphase, -⟩ | hphase | hphase
  · exact hpending
  all_goals
    rw [hphase] at hguard
    contradiction

theorem Paid.move (h : Paid config gate revision epoch) (hguard : gate.guard.uncertain = false) (guard : GuardPhase) :
    Paid config { gate with guard } revision epoch :=
  { h with fenced := fun hrevision hstale => .inl (h.pending hguard hrevision hstale) }

theorem Paid.supersede (h : Paid config gate revision epoch) (guard : GuardPhase) :
    Paid config { gate with payoutRevision := gate.payoutRevision + 1, guard } revision epoch := by
  have hle := h.revision_le
  refine { h with
    revision_le := by dsimp only; omega
    fenced := fun hrevision => ?_ }
  dsimp only at hrevision
  omega

theorem Paid.change (h : Paid config gate revision epoch) (hdual : config.dualWriter = true)
    (hguard : gate.guard = .idle) (hchange : gate.paying ≠ paying) :
    Paid config { gate with paying, changes := gate.changes + 1, guard := .swapped } revision epoch := by
  have hle := h.epoch_le
  refine ⟨h.revision_le, Nat.le_succ_of_le hle, ?_, ?_, ?_⟩
  · intro heq
    dsimp only at heq
    omega
  · intro heq
    have hpaying := h.unchanged (Nat.succ.inj heq)
    simp only [Gate.carryPaying, hdual, Bool.not_true, Bool.false_or] at hpaying ⊢
    rw [hpaying] at hchange
    exact Bool.eq_false_iff.mpr hchange.symm
  · intro hrevision hlt
    rcases Nat.lt_or_ge epoch gate.changes with hstale | hfresh
    · exact .inl (h.pending (by rw [hguard]; rfl) hrevision hstale)
    · exact .inr (.inl ⟨.inl rfl, by dsimp only; omega⟩)

theorem paid_step (h : Paid config gate revision epoch) (hstep : GateStep config shared gate gate') :
    Paid config gate' revision epoch := by
  cases hstep with
  | change paying hdual hguard hchange => exact h.change hdual hguard hchange
  | raise hguard =>
    refine { h with fenced := fun hrevision hstale => ?_ }
    rcases h.fenced hrevision hstale with hpending | ⟨-, hone⟩ | hphase | hphase
    · exact .inl hpending
    · exact .inr (.inl ⟨.inr rfl, hone⟩)
    all_goals
      rw [hguard] at hphase
      contradiction
  | pend | seeFailure => exact { h with fenced := fun _ _ => .inl rfl }
  | fence hguard | notPending hguard | lock hguard | bump hguard | lose hguard | seeCommit hguard =>
    exact h.move (by rw [hguard]; rfl) _
  | fail hguard => exact h.move (GuardPhase.uncertain_of_trying hguard) _
  | clear lost hguard =>
    refine { h with fenced := fun _ _ => .inr (.inr ?_) }
    cases lost with
    | true => exact .inr rfl
    | false => exact .inl rfl
  | rollBack hguard => exact { h with fenced := fun _ _ => .inr (.inr (.inr rfl)) }
  | commit hguard => exact h.supersede _
  | beginSnapshot | readGate | endSnapshot | dropSnapshot => exact { h with }
  | otherBump hsnapshot hfree hrow => exact h.supersede gate.guard

theorem gateInv_initial (payoutRevision : ℤ) :
    GateInv config (System.initial payoutRevision : System D).gate where
  counts := rfl
  single _ := rfl
  works := by simp [System.initial]
  exclusive h := absurd rfl h
  reading := by simp [System.initial]
  read := by simp [System.initial]

theorem counts_step (h : gate.changes = gate.generation + if gate.guard = .swapped then 1 else 0)
    (hstep : GateStep config shared gate gate') :
    gate'.changes = gate'.generation + if gate'.guard = .swapped then 1 else 0 := by
  cases hstep with
  | change _ _ hguard | raise hguard => simpa [hguard] using h
  | fail hguard =>
    have hne : gate.guard ≠ .swapped := by rintro heq; rw [heq] at hguard; contradiction
    simpa [hne] using h
  | beginSnapshot | readGate | endSnapshot | dropSnapshot | otherBump => exact h
  | pend hguard | fence hguard | notPending hguard | lock hguard | bump hguard | lose hguard
  | clear _ hguard | rollBack hguard | commit hguard | seeCommit hguard | seeFailure _ hguard =>
    simpa [hguard] using h

theorem exclusive_step (h : gate.snapshot ≠ none → gate.guard.holdsSettlement = false)
    (hstep : GateStep config shared gate gate') :
    gate'.snapshot ≠ none → gate'.guard.holdsSettlement = false := by
  intro hsnapshot
  cases hstep with
  | lock hguard hflag hfree => exact absurd (Option.isNone_iff_eq_none.mp hfree) hsnapshot
  | bump hguard hrow =>
    have := h hsnapshot
    rw [hguard] at this
    contradiction
  | clear lost hguard =>
    have hheld := h hsnapshot
    rw [hguard] at hheld
    cases lost with
    | true => rfl
    | false => contradiction
  | beginSnapshot _ hfree _ => exact hfree
  | readGate revision hread => exact h (by simp [hread])
  | endSnapshot | dropSnapshot => exact absurd rfl hsnapshot
  | otherBump hnone => exact absurd hnone hsnapshot
  | change | raise | pend | fence | notPending | fail | lose | rollBack | commit | seeCommit
  | seeFailure => rfl

theorem gateInv_step (h : GateInv config gate) (hstep : GateStep config shared gate gate') :
    GateInv config gate' := by
  have hpaid : ∀ {revision : ℤ} {epoch : ℕ}, Paid config gate revision epoch →
      Paid config gate' revision epoch := fun hpaid => paid_step hpaid hstep
  have hworks := fun work hwork hdigest => hpaid (h.works work hwork hdigest)
  have hread := fun revision paying epoch hsnapshot hpaying =>
    hpaid (h.read revision paying epoch hsnapshot hpaying)
  refine ⟨counts_step h.counts hstep, ?_, ?_, exclusive_step h.exclusive hstep, ?_, ?_⟩
  · intro hsingle
    cases hstep with
    | change paying hdual => rw [hsingle] at hdual; contradiction
    | _ => exact h.single hsingle
  · cases hstep with
    | endSnapshot revision paying epoch digest hsnapshot hdigest =>
      intro work hwork hpaying
      rcases mem_append.mp hwork with hwork | hwork
      · exact hworks work hwork hpaying
      · rw [mem_singleton.mp hwork] at hpaying ⊢
        refine hread revision paying epoch hsnapshot ?_
        by_contra hclosed
        exact hpaying (hdigest (Bool.eq_false_iff.mpr hclosed))
    | _ => exact hworks
  · cases hstep with
    | commit hguard =>
      intro revision (hsnapshot : gate.snapshot = _)
      have hheld := h.exclusive (by simp [hsnapshot])
      rw [hguard] at hheld
      contradiction
    | beginSnapshot => exact fun revision hsnapshot => by cases hsnapshot; rfl
    | readGate | endSnapshot | dropSnapshot => exact fun revision hsnapshot => by cases hsnapshot
    | otherBump hnone => exact fun revision hsnapshot => by rw [hnone] at hsnapshot; cases hsnapshot
    | _ => exact h.reading
  · cases hstep with
    | beginSnapshot | endSnapshot | dropSnapshot => exact fun revision paying epoch hsnapshot => by cases hsnapshot
    | readGate revision hsnapshot =>
      intro revision' paying epoch heq hpaying
      cases heq
      refine ⟨(h.reading revision hsnapshot).le, Nat.le_refl _, fun _ => hpaying, ?_, ?_⟩
      · intro heq
        dsimp only at heq
        omega
      · intro _ hlt
        exact absurd hlt (Nat.lt_irrefl _)
    | _ => exact hread

theorem counters_le (hstep : GateStep config shared gate gate') :
    gate.generation ≤ gate'.generation ∧ gate.changes ≤ gate'.changes := by
  cases hstep with
  | change => exact ⟨Nat.le_refl _, Nat.le_succ _⟩
  | raise => exact ⟨Nat.le_succ _, Nat.le_refl _⟩
  | _ => exact ⟨Nat.le_refl _, Nat.le_refl _⟩

theorem shared_step (hrow : gate.guard.holdsRow = false) (hstep : GateStep config true gate gate') :
    gate'.payoutRevision = gate.payoutRevision ∧ gate'.guard.holdsRow = false := by
  cases hstep with
  | clear lost hguard =>
    rw [hguard] at hrow
    cases lost with
    | true => exact ⟨rfl, rfl⟩
    | false => contradiction
  | commit hguard =>
    rw [hguard] at hrow
    contradiction
  | bump _ hfree | otherBump _ _ hfree => contradiction
  | beginSnapshot | readGate | endSnapshot | dropSnapshot => exact ⟨rfl, hrow⟩
  | change | raise | pend | fence | notPending | lock | fail | lose | rollBack | seeCommit
  | seeFailure => exact ⟨rfl, rfl⟩

/-- The flag is set, or cleared by a bump that was rolled back. -/
def Gate.Alarmed (gate : Gate D) : Prop :=
  gate.fencePending = true ∨ gate.guard = .cleared .rolledBack

theorem alarmed_step (hrow : gate.guard.holdsRow = false) (hstep : GateStep config true gate gate')
    (h : gate.Alarmed) : gate'.Alarmed := by
  have hpending : gate.guard ≠ .cleared .rolledBack → gate.fencePending = true :=
    fun hne => h.resolve_right hne
  cases hstep with
  | pend | seeFailure => exact .inl rfl
  | rollBack => exact .inr rfl
  | clear lost hguard =>
    rw [hguard] at hrow
    cases lost with
    | true => exact .inr rfl
    | false => contradiction
  | bump _ hfree | otherBump _ _ hfree => contradiction
  | beginSnapshot | readGate | endSnapshot | dropSnapshot => exact h
  | fail hguard =>
    refine .inl (hpending ?_)
    rintro heq
    rw [heq] at hguard
    contradiction
  | change _ _ hguard | raise hguard | fence hguard | notPending hguard | lock hguard
  | lose hguard | commit hguard | seeCommit hguard => exact .inl (hpending (by simp [hguard]))

/-- What holds of an offer of carry-paying work where it is. -/
def Placed (gate : Gate D) (work : Work D) : OfferPhase → Prop
  | .generation generation => generation ≤ gate.generation
  | .revision generation observed =>
    generation ≤ gate.generation ∧ observed = gate.payoutRevision
  | .gate generation observed paying =>
    generation ≤ gate.generation ∧ observed = gate.payoutRevision ∧
      (paying = true → observed = work.payoutRevision → generation ≤ work.epoch ∨ gate.Alarmed)
  | .reserving generation => generation ≤ work.epoch
  | .reserved generation epoch => generation ≤ work.epoch ∧ epoch ≤ gate.changes
  | .sendGate generation epoch paying =>
    epoch ≤ gate.changes ∧ (paying = true → work.epoch < epoch → generation < gate.generation)
  | .sendGeneration generation epoch =>
    epoch ≤ gate.changes ∧ (work.epoch < epoch → generation < gate.generation)
  | .sent epoch => epoch ≤ work.epoch
  | _ => True

structure OfferInv (config : Config D) (gate : Gate D) (offer : Offer D) : Prop where
  shares : offer.phase.shares = true → gate.guard.holdsRow = false
  paid : offer.work.priorBalancesDigest ≠ config.carryFreePriorDigest →
    Paid config gate offer.work.payoutRevision offer.work.epoch
  placed : offer.work.priorBalancesDigest ≠ config.carryFreePriorDigest →
    Placed gate offer.work offer.phase

theorem placed_step {phase : OfferPhase} (h : Placed gate work phase) (hstep : GateStep config shared gate gate')
    (hshared : phase.shares = true → shared = true) (hrow : phase.shares = true → gate.guard.holdsRow = false) :
    Placed gate' work phase := by
  obtain ⟨hgeneration, hchanges⟩ := counters_le hstep
  cases phase with
  | generation generation => exact h.trans hgeneration
  | revision generation observed =>
    obtain rfl := hshared rfl
    exact ⟨h.1.trans hgeneration, h.2.trans (shared_step (hrow rfl) hstep).1.symm⟩
  | gate generation observed paying =>
    obtain rfl := hshared rfl
    refine ⟨h.1.trans hgeneration, h.2.1.trans (shared_step (hrow rfl) hstep).1.symm, ?_⟩
    intro hpaying hrevision
    exact (h.2.2 hpaying hrevision).imp_right (alarmed_step (hrow rfl) hstep)
  | reserved generation epoch => exact ⟨h.1, h.2.trans hchanges⟩
  | sendGate generation epoch paying =>
    exact ⟨h.1.trans hchanges, fun hpaying hlt => (h.2 hpaying hlt).trans_le hgeneration⟩
  | sendGeneration generation epoch =>
    exact ⟨h.1.trans hchanges, fun hlt => (h.2 hlt).trans_le hgeneration⟩
  | _ => exact h

theorem offerInv_gateStep (h : OfferInv config gate offer) (hstep : GateStep config shared gate gate')
    (hshared : offer.phase.shares = true → shared = true) :
    OfferInv config gate' offer where
  shares hshares := by
    obtain rfl := hshared hshares
    exact (shared_step (h.shares hshares) hstep).2
  paid hpays := paid_step (h.paid hpays) hstep
  placed hpays := placed_step (h.placed hpays) hstep hshared h.shares

theorem behind_or_alarmed (h : GateInv config gate) (hpaid : Paid config gate work.payoutRevision work.epoch)
    (hrow : gate.guard.holdsRow = false) (hgeneration : generation ≤ gate.generation)
    (hpaying : gate.carryPaying config = true) (hrevision : gate.payoutRevision = work.payoutRevision) :
    generation ≤ work.epoch ∨ gate.Alarmed := by
  have hcounts := h.counts
  rcases Nat.lt_or_ge work.epoch gate.changes with hstale | hfresh
  · right
    rcases hpaid.fenced hrevision.symm hstale with hpending | ⟨-, hone⟩ | hguard | hguard
    · exact .inl hpending
    · rw [hpaid.changedOnce hone] at hpaying
      contradiction
    · rw [hguard] at hrow
      contradiction
    · exact .inr hguard
  · left
    omega

theorem generation_moved (h : GateInv config gate) (hpaid : Paid config gate work.payoutRevision work.epoch)
    (hgeneration : generation ≤ work.epoch) (hpaying : gate.carryPaying config = true)
    (hstale : work.epoch < gate.changes) : generation < gate.generation := by
  have hcounts := h.counts
  by_cases hone : gate.changes = work.epoch + 1
  · rw [hpaid.changedOnce hone] at hpaying
    contradiction
  · split_ifs at hcounts <;> omega

section Offers

variable [DecidableEq D]

theorem current_of_pays {digest : D} {pending : Bool} (hdual : config.dualWriter = true)
    (hpays : digest ≠ config.carryFreePriorDigest) (h : carryPayingNotCurrent config paying pending digest = false) :
    paying = true ∧ pending = false := by
  simpa [carryPayingNotCurrent, carryFreeBlock, hdual, hpays] using h

theorem offerInv_step {phase : OfferPhase} (hgate : GateInv config gate) (h : OfferInv config gate offer)
    (hstep : OfferStep config gate offer phase) : OfferInv config gate { offer with phase } := by
  have hcounts := hgate.counts
  have hplaced := h.placed
  cases hstep with
  | readGeneration hphase => exact ⟨nofun, h.paid, fun _ => Nat.le_refl _⟩
  | readRevision generation hphase hleased hrow hsnapshot =>
    rw [hphase] at hplaced
    exact ⟨fun _ => hrow, h.paid, fun hpays => ⟨hplaced hpays, rfl⟩⟩
  | readGate generation observed hphase =>
    have hrow := h.shares (by rw [hphase]; rfl)
    rw [hphase] at hplaced
    refine ⟨fun _ => hrow, h.paid, fun hpays => ?_⟩
    obtain ⟨hgeneration, hobserved⟩ := hplaced hpays
    refine ⟨hgeneration, hobserved, fun hpaying hrevision => ?_⟩
    exact behind_or_alarmed hgate (h.paid hpays) hrow hgeneration hpaying
      (hobserved.symm.trans hrevision)
  | reserve generation hphase =>
    rw [hphase] at hplaced
    exact ⟨nofun, h.paid, fun hpays => ⟨hplaced hpays, Nat.le_refl _⟩⟩
  | sendGate generation epoch hphase =>
    rw [hphase] at hplaced
    refine ⟨nofun, h.paid, fun hpays => ?_⟩
    obtain ⟨hgeneration, hepoch⟩ := hplaced hpays
    refine ⟨hepoch, fun hpaying hlt => ?_⟩
    exact generation_moved hgate (h.paid hpays) hgeneration hpaying (hlt.trans_le hepoch)
  | sendFlag generation epoch paying hphase =>
    rw [hphase] at hplaced
    split_ifs with hcurrent
    · exact ⟨nofun, h.paid, fun _ => trivial⟩
    · refine ⟨nofun, h.paid, fun hpays => ?_⟩
      obtain ⟨hepoch, hmoved⟩ := hplaced hpays
      refine ⟨hepoch, fun hlt => ?_⟩
      cases hdual : config.dualWriter with
      | true =>
        exact hmoved (current_of_pays hdual hpays (Bool.eq_false_iff.mpr hcurrent)).1 hlt
      | false =>
        have := hgate.single hdual
        omega
  | send generation epoch hphase =>
    rw [hphase] at hplaced
    split_ifs with hmoved
    · exact ⟨nofun, h.paid, fun _ => trivial⟩
    · refine ⟨nofun, h.paid, fun hpays => ?_⟩
      obtain ⟨hepoch, hlater⟩ := hplaced hpays
      show epoch ≤ offer.work.epoch
      by_contra hlt
      cases hdual : config.dualWriter with
      | true =>
        have hsame : gate.generation = generation := by
          simpa [carryGateMoved, carryFreeBlock, hdual, hpays] using hmoved
        have := hlater (Nat.lt_of_not_le hlt)
        omega
      | false =>
        have := hgate.single hdual
        omega
  | reserveLeased | sendLeased => exact ⟨nofun, h.paid, fun _ => trivial⟩

theorem offerInv_readFlag {observed : ℤ} (hgate : GateInv config gate) (h : OfferInv config gate offer)
    (hphase : offer.phase = .gate generation observed paying) (hseen : gate.guard ≠ .cleared .rolledBack) :
    OfferInv config gate
      { offer with phase := reservation config gate offer.work generation observed paying } := by
  have hcounts := hgate.counts
  have hrow := h.shares (by rw [hphase]; rfl)
  have hplaced := h.placed
  rw [hphase] at hplaced
  unfold reservation
  split_ifs with hcurrent
  · refine ⟨fun _ => hrow, h.paid, fun hpays => ?_⟩
    obtain ⟨hgeneration, -, hbehind⟩ := hplaced hpays
    show generation ≤ offer.work.epoch
    cases hdual : config.dualWriter with
    | true =>
      obtain ⟨hpaying, hflag⟩ := current_of_pays hdual hpays hcurrent.2
      refine (hbehind hpaying hcurrent.1).resolve_right ?_
      rintro (hpending | hguard)
      · rw [hflag] at hpending
        contradiction
      · exact hseen hguard
    | false =>
      have := hgate.single hdual
      omega
  · exact ⟨nofun, h.paid, fun _ => trivial⟩

structure Inv (config : Config D) (s : System D) : Prop where
  gate : GateInv config s.gate
  offers : ∀ offer ∈ s.offers, OfferInv config s.gate offer

variable {s : System D}

omit [DecidableEq D] in
theorem System.shared_of_mem (hoffer : offer ∈ s.offers) (hshares : offer.phase.shares = true) : s.shared = true :=
  any_eq_true.mpr ⟨offer, hoffer, hshares⟩

omit [DecidableEq D] in
theorem Inv.replace (h : Inv config s) {front back : List (Offer D)} {offer' : Offer D}
    (hoffers : s.offers = front ++ offer :: back)
    (hoffer : OfferInv config s.gate offer → OfferInv config s.gate offer') :
    Inv config { s with offers := front ++ offer' :: back } := by
  refine ⟨h.gate, fun other hother => ?_⟩
  have hmem : ∀ earlier, earlier ∈ front ∨ earlier = offer ∨ earlier ∈ back →
      earlier ∈ s.offers := by
    intro earlier hearlier
    rw [hoffers]
    simpa using hearlier
  rcases mem_append.mp hother with hfront | hother
  · exact h.offers other (hmem other (.inl hfront))
  · rcases mem_cons.mp hother with rfl | hback
    · exact hoffer (h.offers offer (hmem offer (.inr (.inl rfl))))
    · exact h.offers other (hmem other (.inr (.inr hback)))

theorem inv_step {t : System D} (h : Inv config s) (hstep : Step config s t) : Inv config t := by
  cases hstep with
  | gate gate hstep =>
    refine ⟨gateInv_step h.gate hstep, fun offer hoffer => ?_⟩
    exact offerInv_gateStep (h.offers offer hoffer) hstep (System.shared_of_mem hoffer)
  | begin work leased hwork =>
    refine ⟨h.gate, fun offer hoffer => ?_⟩
    rcases mem_append.mp hoffer with hoffer | hoffer
    · exact h.offers offer hoffer
    · rw [mem_singleton.mp hoffer]
      exact ⟨nofun, h.gate.works work hwork, fun _ => trivial⟩
  | offer front back offer phase hoffers hstep =>
    exact h.replace hoffers fun hoffer => offerInv_step h.gate hoffer hstep
  | drop front back offer hoffers =>
    refine ⟨h.gate, fun other hother => h.offers other ?_⟩
    rw [hoffers]
    rcases mem_append.mp hother with hfront | hback
    · exact mem_append_left _ hfront
    · exact mem_append_right _ (mem_cons_of_mem _ hback)

/-- A reservation reads the flag when no bump that cleared it is rolled back unseen. -/
def SeenRead (config : Config D) (s t : System D) : Prop :=
  ReadFlag config s t ∧ s.gate.guard ≠ .cleared .rolledBack

theorem inv_seenRead {t : System D} (h : Inv config s) (hread : SeenRead config s t) : Inv config t := by
  obtain ⟨hread, hseen⟩ := hread
  cases hread with
  | intro front back offer generation observed paying hoffers hphase =>
    exact h.replace hoffers fun hoffer => offerInv_readFlag h.gate hoffer hphase hseen

/-- In every run whose reservations read the flag with no rolled-back bump unseen, no
carry-paying work is reserved as current behind a gate change and then sent. -/
theorem carryFence_holds {payoutRevision : ℤ} {s : System D}
    (h : Relation.ReflTransGen (fun s t => Step config s t ∨ SeenRead config s t) (.initial payoutRevision) s) :
    ¬ s.Unfenced config := by
  have hinitial : Inv config (System.initial payoutRevision : System D) :=
    ⟨gateInv_initial payoutRevision, by simp [System.initial]⟩
  have hinv : Inv config s :=
    Transition.run_keeps (fun _ _ hinv hstep => hstep.elim (inv_step hinv) (inv_seenRead hinv))
      hinitial h
  rintro ⟨offer, hoffer, epoch, hphase, hpays, hlt⟩
  have hplaced := (hinv.offers offer hoffer).placed hpays
  rw [hphase] at hplaced
  exact absurd hlt (Nat.not_lt.mpr hplaced)

end Offers

def sampleConfig : Config ℕ where
  dualWriter := true
  carryFreePriorDigest := 0

/-- The gate was opened and fenced, and carry-paying work was built under it. -/
def openedGate : System ℕ where
  gate :=
    { payoutRevision := 1
      paying := true
      generation := 1
      fencePending := false
      guard := .idle
      changes := 1
      snapshot := none
      works := [⟨1, 7, 1⟩] }
  offers := []

theorem openedGate_run :
    Relation.ReflTransGen (Step sampleConfig) (System.initial 0) openedGate :=
  .head (.gate _ (.change true rfl rfl nofun)) <| .head (.gate _ (.raise rfl)) <|
    .head (.gate _ (.pend rfl)) <| .head (.gate _ (.lock rfl rfl rfl)) <|
    .head (.gate _ (.bump rfl rfl)) <| .head (.gate _ (.clear false rfl)) <|
    .head (.gate _ (.commit rfl)) <| .head (.gate _ (.seeCommit rfl)) <|
    .head (.gate _ (.beginSnapshot rfl rfl rfl)) <| .head (.gate _ (.readGate 1 rfl)) <|
    .head (.gate _ (.endSnapshot 1 true 1 7 rfl nofun)) .refl

/-- The gate was closed, its bump failed, and it was reopened; that bump was rolled back at its
commit, which the guard has not seen. -/
def reopenedGate : System ℕ :=
  { openedGate with
    gate :=
      { openedGate.gate with
        generation := 3
        guard := .cleared .rolledBack
        changes := 3 } }

theorem reopenedGate_run : Relation.ReflTransGen (Step sampleConfig) openedGate reopenedGate :=
  .head (.gate _ (.change false rfl rfl nofun)) <| .head (.gate _ (.raise rfl)) <|
    .head (.gate _ (.pend rfl)) <| .head (.gate _ (.fail rfl)) <|
    .head (.gate _ (.change true rfl rfl nofun)) <| .head (.gate _ (.raise rfl)) <|
    .head (.gate _ (.pend rfl)) <| .head (.gate _ (.lock rfl rfl rfl)) <|
    .head (.gate _ (.bump rfl rfl)) <| .head (.gate _ (.clear false rfl)) <|
    .head (.gate _ (.rollBack rfl)) .refl

/-- The state `s` with one offer of its work in `phase`. -/
def System.offering (s : System ℕ) (phase : OfferPhase) : System ℕ :=
  { s with offers := [⟨⟨1, 7, 1⟩, false, phase⟩] }

theorem offering_run : Relation.ReflTransGen
    (fun s t => Step sampleConfig s t ∨ ReadFlag sampleConfig s t) reopenedGate
    (reopenedGate.offering (.sent 3)) :=
  .head (.inl (.begin ⟨1, 7, 1⟩ false (mem_singleton.mpr rfl))) <|
    .head (.inl (.offer [] [] _ (.generation 3) rfl (.readGeneration rfl))) <|
    .head (.inl (.offer [] [] _ (.revision 3 1) rfl (.readRevision 3 rfl rfl rfl rfl))) <|
    .head (.inl (.offer [] [] _ (.gate 3 1 true) rfl (.readGate 3 1 rfl))) <|
    .head (.inr (.intro [] [] _ 3 1 true rfl rfl)) <|
    .head (.inl (.offer [] [] _ (.reserved 3 3) rfl (.reserve 3 rfl))) <|
    .head (.inl (.offer [] [] _ (.sendGate 3 3 true) rfl (.sendGate 3 3 rfl))) <|
    .head (.inl (.offer [] [] _ _ rfl (.sendFlag 3 3 true rfl))) <|
    .head (.inl (.offer [] [] _ _ rfl (.send 3 3 rfl))) .refl

/-- Work built before the gate was closed is reserved as current, and sent, after the gate was
reopened: the flag was cleared and the bump behind it is gone. -/
theorem carryFence_open_after_rollback :
    ∃ s, Reachable sampleConfig 0 s ∧ s.Unfenced sampleConfig := by
  refine ⟨reopenedGate.offering (.sent 3), ?_, _, mem_singleton.mpr rfl, 3, rfl, ?_, ?_⟩
  · have hsteps : Relation.ReflTransGen (Step sampleConfig) (System.initial 0) reopenedGate :=
      openedGate_run.trans reopenedGate_run
    exact (Relation.ReflTransGen.mono (fun _ _ hstep => .inl hstep) _ _ hsteps).trans offering_run
  · decide
  · decide

theorem carryFence_holds_once_sent :
    ∃ s, Relation.ReflTransGen
        (fun s t => Step sampleConfig s t ∨ SeenRead sampleConfig s t) (System.initial 0) s ∧
      (∃ offer ∈ s.offers, offer.phase = .sent 1) ∧ ¬ s.Unfenced sampleConfig := by
  have hopened : Relation.ReflTransGen
      (fun s t => Step sampleConfig s t ∨ SeenRead sampleConfig s t) (System.initial 0) openedGate :=
    Relation.ReflTransGen.mono (fun _ _ hstep => .inl hstep) _ _ openedGate_run
  have hsent : Relation.ReflTransGen
      (fun s t => Step sampleConfig s t ∨ SeenRead sampleConfig s t) openedGate
      (openedGate.offering (.sent 1)) :=
    .head (.inl (.begin ⟨1, 7, 1⟩ false (mem_singleton.mpr rfl))) <|
      .head (.inl (.offer [] [] _ (.generation 1) rfl (.readGeneration rfl))) <|
      .head (.inl (.offer [] [] _ (.revision 1 1) rfl (.readRevision 1 rfl rfl rfl rfl))) <|
      .head (.inl (.offer [] [] _ (.gate 1 1 true) rfl (.readGate 1 1 rfl))) <|
      .head (.inr ⟨.intro [] [] _ 1 1 true rfl rfl, nofun⟩) <|
      .head (.inl (.offer [] [] _ (.reserved 1 1) rfl (.reserve 1 rfl))) <|
      .head (.inl (.offer [] [] _ (.sendGate 1 1 true) rfl (.sendGate 1 1 rfl))) <|
      .head (.inl (.offer [] [] _ _ rfl (.sendFlag 1 1 true rfl))) <|
      .head (.inl (.offer [] [] _ _ rfl (.send 1 1 rfl))) .refl
  exact ⟨_, hopened.trans hsent, ⟨_, mem_singleton.mpr rfl, rfl⟩,
    carryFence_holds (hopened.trans hsent)⟩

end QbitPrism.CarryGate
