import Mathlib
import QbitPrism.Lib.Hex
import QbitPrism.Lib.MachineInt
import QbitPrism.Lib.Replay

/-!
# The cluster's chain view

`qbit_prism_cluster` keeps one accepted tip for all frontends. An observation replaces it when it has
more work; a tip of equal work replaces it only as a transition from the accepted tip whose witness
was taken in the current chain epoch. Every replacement opens a new epoch, so a witness is spent by
the first one.
-/
namespace QbitPrism
open MachineInt Checked

structure ClusterView where
  payoutRevision : I64
  chainEpoch : I64
  bestChainwork : ℕ
  bestTipHash : Option String
  bestTipHeight : Option I64
  deriving DecidableEq

structure ChainObservationState where
  payoutRevision : I64
  chainEpoch : I64
  bestTipHash : Option String
  deriving DecidableEq

structure ChainTransition where
  predecessor : String
  originChainEpoch : I64
  deriving DecidableEq

inductive ChainObservationError where
  | behind
  | retry
  | refused (message : String)
  deriving DecidableEq

def ClusterView.chainObservationState (view : ClusterView) : ChainObservationState where
  payoutRevision := view.payoutRevision
  chainEpoch := view.chainEpoch
  bestTipHash := view.bestTipHash

def isAsciiHexdigit (c : Char) : Bool :=
  ('0' ≤ c && c ≤ '9') || ('a' ≤ c && c ≤ 'f') || ('A' ≤ c && c ≤ 'F')

def hexdigitValue (c : Char) : ℕ :=
  if c ≤ '9' then c.toNat - 48 else if c ≤ 'F' then c.toNat - 55 else c.toNat - 87

def parseChainwork (hex : String) : ℕ :=
  hex.toList.foldl (fun value c => 16 * value + hexdigitValue c) 0

/-- `payout_revision+1` and `chain_epoch+1`, which fail at the end of `bigint`. -/
def bumped (value : I64) : Except ChainObservationError I64 :=
  okOr (value.checkedAdd 1) (.refused "bigint out of range")

/-- An equal-work tip that is not the accepted one, against the witness it comes with. -/
def checkTransition (view : ClusterView) (sameHeight : Bool) (witness : ChainTransition)
    (observed : ChainObservationState) : Except ChainObservationError Unit := do
  let origin := witness.predecessor.toLower
  require (view.chainEpoch = witness.originChainEpoch ∧ observed.chainEpoch = witness.originChainEpoch ∧
    observed.bestTipHash = some origin) (.refused "chain observation epoch changed")
  if view.payoutRevision ≠ observed.payoutRevision then
    if view.bestTipHash = some origin ∧ sameHeight then .error .retry
    else .error (.refused "chain observation revision changed")
  else require (view.bestTipHash = some origin) (.refused "chain transition predecessor changed")

def checkEqualWork (view : ClusterView) (sameTip sameHeight : Bool)
    (transition : Option (ChainTransition × ChainObservationState)) : Except ChainObservationError Unit := do
  (match sameTip, transition with
    | false, some (witness, observed) => checkTransition view sameHeight witness observed
    | _, _ => pure ())
  require ((sameTip ∨ transition.isSome) ∧ sameHeight)
    (.refused "local node follows a conflicting equal-work chain tip")

/-- The update: the tip, its work and height, the next revision and the next epoch. -/
def acceptTip (view : ClusterView) (work : ℕ) (tip : String) (height : I64) :
    Except ChainObservationError (I64 × ClusterView) := do
  let payoutRevision ← bumped view.payoutRevision
  let chainEpoch ← bumped view.chainEpoch
  pure (payoutRevision, ⟨payoutRevision, chainEpoch, work, some tip, some height⟩)

def observeChainViewChecked (view : ClusterView) (tip : String) (height : U64) (chainworkHex : String)
    (transition : Option (ChainTransition × ChainObservationState)) :
    Except ChainObservationError (I64 × ClusterView) := do
  require (tip.utf8ByteSize = 64 ∧ tip.toList.all isAsciiHexdigit) (.refused "invalid chain tip hash")
  require (chainworkHex ≠ "" ∧ chainworkHex.utf8ByteSize ≤ 64 ∧ chainworkHex.toList.all isAsciiHexdigit)
    (.refused "invalid cumulative chainwork")
  let work := parseChainwork chainworkHex
  require (0 < work) (.refused "chainwork must be positive")
  let height ← okOr (Signed.ofInt? height.val : Option I64)
    (ChainObservationError.refused "out of range integral type conversion attempted")
  let tip := tip.toLower
  require (view.bestChainwork ≤ work) .behind
  let sameTip : Bool := view.bestTipHash = some tip
  let sameHeight : Bool := view.bestTipHeight = some height
  (if view.bestChainwork = work then checkEqualWork view sameTip sameHeight transition else pure ())
  if view.bestChainwork < work ∨ ¬sameTip then acceptTip view work tip height
  else pure (view.payoutRevision, view)

def observeChainView (view : ClusterView) (tip : String) (height : U64) (chainworkHex : String) :
    Except ChainObservationError (I64 × ClusterView) :=
  observeChainViewChecked view tip height chainworkHex none

def observeChainTransition (view : ClusterView) (transition : ChainTransition) (tip : String) (height : U64)
    (chainworkHex : String) (observed : ChainObservationState) :
    Except ChainObservationError (I64 × ClusterView) := do
  require (transition.predecessor.utf8ByteSize = 64 ∧ transition.predecessor.toList.all isAsciiHexdigit ∧
    transition.predecessor.toLower ≠ tip.toLower) (.refused "invalid chain transition predecessor")
  require (0 ≤ transition.originChainEpoch.val) (.refused "invalid chain transition epoch")
  observeChainViewChecked view tip height chainworkHex (some (transition, observed))

/-- A call that reaches its transaction. The settlement lock orders them; one that fails, or whose
commit is lost, changes nothing. -/
inductive ChainCall where
  | view (tip : String) (height : U64) (chainworkHex : String)
  | transition (witness : ChainTransition) (tip : String) (height : U64) (chainworkHex : String)
      (observed : ChainObservationState)
  | bumpRevision

/-- The committed state of a transaction, or the state before it. -/
def committed (view : ClusterView) : Except ChainObservationError (I64 × ClusterView) → ClusterView
  | .ok (_, after) => after
  | .error _ => view

def ChainCall.apply (view : ClusterView) : ChainCall → ClusterView
  | .view tip height chainworkHex => committed view (observeChainView view tip height chainworkHex)
  | .transition witness tip height chainworkHex observed =>
    committed view (observeChainTransition view witness tip height chainworkHex observed)
  | .bumpRevision =>
    match view.payoutRevision.checkedAdd 1 with
    | some payoutRevision => { view with payoutRevision }
    | none => view

def chainRun (view : ClusterView) (calls : List ChainCall) : ClusterView := Replay.run ChainCall.apply view calls

/-- The call replaces the accepted tip by a sibling of equal work, on this witness. -/
def Replaces (witness : ChainTransition) (view : ClusterView) (call : ChainCall) : Prop :=
  (∃ tip height chainworkHex observed, call = .transition witness tip height chainworkHex observed) ∧
    (call.apply view).bestTipHash ≠ view.bestTipHash ∧ (call.apply view).bestChainwork = view.bestChainwork

/-- What a committed observation may do: nothing, or replace the tip and open the next epoch, for more
work or on the given witness. -/
inductive Observed (transition : Option ChainTransition) (before : ClusterView) : ClusterView → Prop where
  | unchanged : Observed transition before before
  | moreWork (after : ClusterView) (hrevision : after.payoutRevision.val = before.payoutRevision.val + 1)
      (hepoch : after.chainEpoch.val = before.chainEpoch.val + 1)
      (hwork : before.bestChainwork < after.bestChainwork) : Observed transition before after
  | sibling (witness : ChainTransition) (after : ClusterView) (htransition : transition = some witness)
      (hrevision : after.payoutRevision.val = before.payoutRevision.val + 1)
      (hepoch : after.chainEpoch.val = before.chainEpoch.val + 1)
      (hwork : after.bestChainwork = before.bestChainwork) (hheight : after.bestTipHeight = before.bestTipHeight)
      (htip : before.bestTipHash = some witness.predecessor.toLower)
      (horigin : witness.originChainEpoch = before.chainEpoch) : Observed transition before after

theorem bumped_eq_ok {value next : I64} : bumped value = .ok next ↔ next.val = value.val + 1 := by
  rw [bumped, okOr_eq_ok, Signed.checkedAdd_eq_some]
  rfl

theorem checkTransition_eq_ok {view : ClusterView} {sameHeight : Bool} {witness : ChainTransition}
    {observed : ChainObservationState} (h : checkTransition view sameHeight witness observed = .ok ()) :
    view.bestTipHash = some witness.predecessor.toLower ∧ witness.originChainEpoch = view.chainEpoch := by
  obtain ⟨⟨⟩, hepoch, h⟩ := bind_eq_ok.mp h
  rw [require_eq_ok] at hepoch
  split_ifs at h
  rw [require_eq_ok] at h
  exact ⟨h, hepoch.1.symm⟩

variable {transition : Option (ChainTransition × ChainObservationState)} {call : ChainCall}

theorem checkEqualWork_eq_ok {view : ClusterView} {sameHeight : Bool}
    (h : checkEqualWork view false sameHeight transition = .ok ()) :
    ∃ witness observed, transition = some (witness, observed) ∧
      view.bestTipHash = some witness.predecessor.toLower ∧ witness.originChainEpoch = view.chainEpoch ∧
      sameHeight = true := by
  obtain ⟨⟨⟩, hwitness, h⟩ := bind_eq_ok.mp h
  rw [require_eq_ok] at h
  cases transition with
  | none => simp at h
  | some transition =>
    obtain ⟨witness, observed⟩ := transition
    obtain ⟨htip, horigin⟩ := checkTransition_eq_ok hwitness
    exact ⟨witness, observed, rfl, htip, horigin, h.2⟩

theorem acceptTip_eq_ok {view after : ClusterView} {work : ℕ} {tip : String} {height revision : I64}
    (h : acceptTip view work tip height = .ok (revision, after)) :
    after.payoutRevision.val = view.payoutRevision.val + 1 ∧ after.chainEpoch.val = view.chainEpoch.val + 1 ∧
      after = ⟨after.payoutRevision, after.chainEpoch, work, some tip, some height⟩ := by
  obtain ⟨payoutRevision, hrevision, h⟩ := bind_eq_ok.mp h
  obtain ⟨chainEpoch, hepoch, h⟩ := bind_eq_ok.mp h
  rw [bumped_eq_ok] at hrevision hepoch
  cases h
  exact ⟨hrevision, hepoch, rfl⟩

section Call
variable {view after : ClusterView} {tip chainworkHex : String} {height : U64} {revision : I64}

theorem observeChainViewChecked_eq_ok
    (h : observeChainViewChecked view tip height chainworkHex transition = .ok (revision, after)) :
    Observed (transition.map Prod.fst) view after := by
  obtain ⟨⟨⟩, -, h⟩ := bind_eq_ok.mp h
  obtain ⟨⟨⟩, -, h⟩ := bind_eq_ok.mp h
  obtain ⟨⟨⟩, -, h⟩ := bind_eq_ok.mp h
  obtain ⟨signed, -, h⟩ := bind_eq_ok.mp h
  obtain ⟨⟨⟩, hwork, h⟩ := bind_eq_ok.mp h
  obtain ⟨⟨⟩, hequal, h⟩ := bind_eq_ok.mp h
  rw [require_eq_ok] at hwork
  split_ifs at h with hreplaces
  · obtain ⟨hrevision, hepoch, hupdated⟩ := acceptTip_eq_ok h
    rcases lt_or_eq_of_le hwork with hmore | hsame
    · exact .moreWork after hrevision hepoch (hupdated ▸ hmore)
    · rw [if_pos hsame] at hequal
      have hother := hreplaces.resolve_left (by omega)
      rw [Bool.not_eq_true] at hother
      rw [hother] at hequal
      obtain ⟨witness, observed, rfl, htip, horigin, hheight⟩ := checkEqualWork_eq_ok hequal
      refine .sibling witness after rfl hrevision hepoch (by rw [hupdated, hsame]) ?_ htip horigin
      rw [hupdated, of_decide_eq_true hheight]
  · cases h
    exact .unchanged

end Call

def ChainCall.witness : ChainCall → Option ChainTransition
  | .transition witness _ _ _ _ => some witness
  | _ => none

theorem committed_observed {view : ClusterView} {result : Except ChainObservationError (I64 × ClusterView)}
    {transition : Option ChainTransition}
    (h : ∀ revision after, result = .ok (revision, after) → Observed transition view after) :
    Observed transition view (committed view result) := by
  cases result with
  | error e => exact .unchanged
  | ok pair => exact h pair.1 pair.2 rfl

theorem ChainCall.apply_cases (view : ClusterView) (call : ChainCall) :
    Observed call.witness view (call.apply view) ∨
      ∃ payoutRevision, call.apply view = { view with payoutRevision } := by
  cases call with
  | view tip height chainworkHex =>
    exact .inl (committed_observed fun _ _ h => observeChainViewChecked_eq_ok h)
  | transition witness tip height chainworkHex observed =>
    refine .inl (committed_observed fun _ _ h => ?_)
    obtain ⟨⟨⟩, -, h⟩ := bind_eq_ok.mp h
    obtain ⟨⟨⟩, -, h⟩ := bind_eq_ok.mp h
    exact observeChainViewChecked_eq_ok h
  | bumpRevision =>
    right
    unfold ChainCall.apply
    cases view.payoutRevision.checkedAdd 1 with
    | none => exact ⟨view.payoutRevision, rfl⟩
    | some payoutRevision => exact ⟨payoutRevision, rfl⟩

theorem ChainCall.bestChainwork_le (view : ClusterView) (call : ChainCall) :
    view.bestChainwork ≤ (call.apply view).bestChainwork := by
  rcases call.apply_cases view with hobserved | ⟨payoutRevision, hbump⟩
  · generalize call.apply view = after at hobserved ⊢
    cases hobserved with
    | unchanged => exact le_rfl
    | moreWork _ _ _ hwork => exact hwork.le
    | sibling _ _ _ _ _ hwork => exact hwork.ge
  · rw [hbump]

theorem ChainCall.chainEpoch_le (view : ClusterView) (call : ChainCall) :
    view.chainEpoch.val ≤ (call.apply view).chainEpoch.val := by
  rcases call.apply_cases view with hobserved | ⟨payoutRevision, hbump⟩
  · generalize call.apply view = after at hobserved ⊢
    cases hobserved with
    | unchanged => exact le_rfl
    | moreWork | sibling => omega
  · rw [hbump]

theorem ChainCall.tip_changed {view : ClusterView} (h : (call.apply view).bestTipHash ≠ view.bestTipHash) :
    (call.apply view).payoutRevision.val = view.payoutRevision.val + 1 ∧
    (call.apply view).chainEpoch.val = view.chainEpoch.val + 1 ∧
    (view.bestChainwork < (call.apply view).bestChainwork ∨
      ∃ witness, call.witness = some witness ∧ (call.apply view).bestChainwork = view.bestChainwork ∧
        (call.apply view).bestTipHeight = view.bestTipHeight ∧
        view.bestTipHash = some witness.predecessor.toLower ∧ witness.originChainEpoch = view.chainEpoch) := by
  rcases call.apply_cases view with hobserved | ⟨payoutRevision, hbump⟩
  · generalize call.apply view = after at h hobserved ⊢
    cases hobserved with
    | unchanged => exact absurd rfl h
    | moreWork _ hrevision hepoch hwork => exact ⟨hrevision, hepoch, .inl hwork⟩
    | sibling witness _ htransition hrevision hepoch hwork hheight htip horigin =>
      exact ⟨hrevision, hepoch, .inr ⟨witness, htransition, hwork, hheight, htip, horigin⟩⟩
  · rw [hbump] at h
    exact absurd rfl h

theorem Replaces.origin_eq {witness : ChainTransition} {view : ClusterView} (h : Replaces witness view call) :
    witness.originChainEpoch = view.chainEpoch := by
  obtain ⟨⟨tip, height, chainworkHex, observed, rfl⟩, htip, hwork⟩ := h
  obtain ⟨-, -, hmore | ⟨other, hother, -, -, -, horigin⟩⟩ := ChainCall.tip_changed htip
  · omega
  · obtain rfl : witness = other := Option.some.inj hother
    exact horigin

theorem not_replaces_after {witness : ChainTransition} {view : ClusterView} {last : ChainCall}
    (htip : (call.apply view).bestTipHash ≠ view.bestTipHash)
    (horigin : witness.originChainEpoch.val ≤ view.chainEpoch.val) (later : List ChainCall) :
    ¬Replaces witness (chainRun (call.apply view) later) last := by
  intro hlast
  have hepoch := (ChainCall.tip_changed htip).2.1
  have hlater : (call.apply view).chainEpoch.val ≤ (chainRun (call.apply view) later).chainEpoch.val :=
    Replay.run_mono ChainCall.chainEpoch_le later
  have hspent := congrArg Signed.val hlast.origin_eq
  omega

/-- Over any calls the accepted work never decreases; a change of the tip raises epoch and revision by
one and is to more work, or to an equal-work tip of equal height on a witness from the accepted tip in
the current epoch; a witness replaces at most once, and never after another change of the tip. -/
theorem chainRun_replacements (start : ClusterView) (earlier later : List ChainCall) (call last : ChainCall) :
    (chainRun start earlier).bestChainwork ≤ (chainRun start (earlier ++ later)).bestChainwork ∧
    ((call.apply (chainRun start earlier)).bestTipHash ≠ (chainRun start earlier).bestTipHash →
      (call.apply (chainRun start earlier)).payoutRevision.val = (chainRun start earlier).payoutRevision.val + 1 ∧
      (call.apply (chainRun start earlier)).chainEpoch.val = (chainRun start earlier).chainEpoch.val + 1 ∧
      ((chainRun start earlier).bestChainwork < (call.apply (chainRun start earlier)).bestChainwork ∨
        ∃ witness, call.witness = some witness ∧
          (call.apply (chainRun start earlier)).bestChainwork = (chainRun start earlier).bestChainwork ∧
          (call.apply (chainRun start earlier)).bestTipHeight = (chainRun start earlier).bestTipHeight ∧
          (chainRun start earlier).bestTipHash = some witness.predecessor.toLower ∧
          witness.originChainEpoch = (chainRun start earlier).chainEpoch)) ∧
    (∀ witness, Replaces witness (chainRun start earlier) call →
      ¬Replaces witness (chainRun start (earlier ++ call :: later)) last) ∧
    (∀ witness, (call.apply (chainRun start earlier)).bestTipHash ≠ (chainRun start earlier).bestTipHash →
      witness.originChainEpoch.val ≤ (chainRun start earlier).chainEpoch.val →
      ¬Replaces witness (chainRun start (earlier ++ call :: later)) last) := by
  have hsplit : ∀ more, chainRun start (earlier ++ more) = chainRun (chainRun start earlier) more :=
    fun more => Replay.run_append
  refine ⟨?_, ChainCall.tip_changed, fun witness hreplaces => ?_, fun witness htip horigin => ?_⟩
  · rw [hsplit]
    exact Replay.run_mono ChainCall.bestChainwork_le later
  · rw [hsplit]
    exact not_replaces_after hreplaces.2.1 (congrArg Signed.val hreplaces.origin_eq).le later
  · rw [hsplit]
    exact not_replaces_after htip horigin later

def sampleTip (digit : Char) : String := String.ofList (List.replicate 64 digit)

def sampleView : ClusterView := ⟨7, 3, 10, some (sampleTip 'a'), some 5⟩

def siblingCall : ChainCall :=
  .transition ⟨sampleTip 'a', 3⟩ (sampleTip 'b') 5 "0a" sampleView.chainObservationState

theorem chainRun_replacements_replayed :
    Replaces ⟨sampleTip 'a', 3⟩ sampleView siblingCall ∧
    ¬Replaces ⟨sampleTip 'a', 3⟩ (chainRun sampleView [siblingCall]) siblingCall := by
  have hreplaces : Replaces ⟨sampleTip 'a', 3⟩ sampleView siblingCall :=
    ⟨⟨_, _, _, _, rfl⟩, by decide +kernel, by decide +kernel⟩
  exact ⟨hreplaces, (chainRun_replacements sampleView [] [] siblingCall siblingCall).2.2.1 _ hreplaces⟩

end QbitPrism
