import Mathlib
import QbitPrism.Lib.Checked
import QbitPrism.Lib.MachineInt
import QbitPrism.Lib.Replay

/-!
# Tip observations and published authority

`TipState` keeps the newest observed tip and the tip of the published work. Published work keeps its
authority while its tip was confirmed recently, and, once a refresh has left that tip, for one build
budget counted from the first departure. Instants and durations are nanoseconds of the monotonic
clock.
-/
namespace QbitPrism
open MachineInt Checked

/-- `Instant::checked_add`: the clock's seconds are an `i64`. -/
def instantCheckedAdd (instant : ℕ) (duration : ℕ) : Option ℕ :=
  if instant + duration < 2 ^ 63 * 10 ^ 9 then some (instant + duration) else none

structure TipView where
  hash : String
  parent : Option String
  transitioned : Bool
  shareLease : Bool
  observedAt : ℕ
  sequence : U64
  deriving DecidableEq

structure TipState where
  current : Option TipView := none
  published : Option TipView := none
  divergenceStarted : Option ℕ := none
  requested : U64 := 0
  publicationGeneration : U64 := 0
  tipGeneration : U64 := 0
  deriving DecidableEq

namespace TipState

def publicationStamp (state : TipState) : Option (String × U64) :=
  state.published.map fun tip => (tip.hash, state.publicationGeneration)

def issuanceTip (state : TipState) : Option (String × U64) :=
  state.published.map fun tip => (tip.hash, state.tipGeneration)

def publishedHash (state : TipState) : Option String := state.published.map (·.hash)

def leaseDeadline (state : TipState) (maxAge buildBudget : ℕ) : Except String ℕ := do
  let published ← okOr state.published "published tip missing"
  let ordinary ← okOr (instantCheckedAdd published.observedAt maxAge) "tip authority deadline overflow"
  match state.divergenceStarted.filter fun _ => buildBudget ≠ 0 with
  | none => pure ordinary
  | some started => do
    let replacement ← okOr (instantCheckedAdd started buildBudget) "replacement lease deadline overflow"
    pure (max ordinary replacement)

/-- `none` is the panic of an exhausted sequence. -/
def reserve (state : TipState) : Option (U64 × TipState) :=
  (state.requested.checkedAdd 1).map fun requested => (requested, { state with requested })

def stale (state : TipState) (sequence : U64) : Bool :=
  state.current.any fun tip => sequence.val < tip.sequence.val

def nextCurrent (state : TipState) (hash : String) (sequence : U64) (now : ℕ) : TipView :=
  match state.current.filter fun tip => tip.hash = hash with
  | some tip => { tip with observedAt := now, sequence }
  | none =>
    { hash, parent := none, transitioned := false, shareLease := false, observedAt := now, sequence }

def observe (state : TipState) (hash : String) (sequence : U64) (fromRefresh : Bool) (now : ℕ) :
    TipState :=
  if state.stale sequence then state
  else
    let state := { state with current := some (state.nextCurrent hash sequence now) }
    if fromRefresh then
      match state.published.filter fun tip => tip.hash = hash with
      | some published => { state with published := some { published with observedAt := now }, divergenceStarted := none }
      | none => { state with divergenceStarted := state.divergenceStarted.or (some now) }
    else state

def updatePublishedTip (state : TipState) (hash : String) (now : ℕ) : Except String TipState := do
  let current ← okOr (state.current.filter fun tip => tip.hash = hash)
    "tip observation superseded before work publication"
  let transitioned := state.published.any fun old => old.hash ≠ hash || old.transitioned
  pure { state with
    published := some { current with transitioned, observedAt := now }
    divergenceStarted := none }

/-- The published tip's generation after a publication of `hash`. -/
def nextTipGeneration (state : TipState) (hash : String) : Except String U64 :=
  if state.publishedHash = some hash then pure state.tipGeneration
  else okOr (state.tipGeneration.checkedAdd 1) "published tip generation exhausted"

def publish (state : TipState) (hash : String) (now : ℕ) : Except String TipState := do
  let publicationGeneration ← okOr (state.publicationGeneration.checkedAdd 1)
    "prepared publication generation exhausted"
  let tipGeneration ← state.nextTipGeneration hash
  let state ← state.updatePublishedTip hash now
  pure { state with publicationGeneration, tipGeneration }

def refreshPublication (state : TipState) (hash : String) (now : ℕ) : Except String TipState := do
  require (state.publishedHash = some hash) "cached work publication changed"
  state.updatePublishedTip hash now

/-- A newer observation than the published tip is of another tip. -/
def diverged (state : TipState) (published : TipView) : Bool :=
  state.current.any fun tip => tip.hash ≠ published.hash

/-- Instants saturate: `elapsed` of a later one is zero. -/
def authority (state : TipState) (maxAge buildBudget : ℕ) (now : ℕ) : Option TipView := do
  let published ← state.published
  if maxAge = 0 then none
  else
    let lease := state.diverged published && buildBudget ≠ 0 &&
      state.divergenceStarted.any fun started => now - started ≤ buildBudget
    if maxAge < now - published.observedAt ∧ ¬lease then none
    else some { published with shareLease := state.diverged published }

end TipState

inductive TipEvent where
  | reserve
  | observe (hash : String) (sequence : U64) (fromRefresh : Bool)
  | publish (hash : String)
  | refreshPublication (hash : String)
  deriving DecidableEq

structure TipInput where
  now : ℕ
  event : TipEvent
  deriving DecidableEq

namespace TipState

def apply (state : TipState) (input : TipInput) : TipState :=
  match input.event with
  | .reserve => (state.reserve.map Prod.snd).getD state
  | .observe hash sequence fromRefresh => state.observe hash sequence fromRefresh input.now
  | .publish hash => (state.publish hash input.now).toOption.getD state
  | .refreshPublication hash => (state.refreshPublication hash input.now).toOption.getD state

def run (state : TipState) (inputs : List TipInput) : TipState := Replay.run apply state inputs

def Publishes (state : TipState) (input : TipInput) : Prop :=
  ∃ hash after, input.event = .publish hash ∧ state.publish hash input.now = .ok after

/-- The event confirms the tip that is published after it: a publication or a refresh of one that
succeeds, or a refresh observation of the published tip that is not stale. -/
def Confirms (state : TipState) (input : TipInput) : Prop :=
  state.Publishes input ∨
    (∃ hash after, input.event = .refreshPublication hash ∧ state.refreshPublication hash input.now = .ok after) ∨
    ∃ hash sequence, input.event = .observe hash sequence true ∧ state.stale sequence = false ∧
      state.publishedHash = some hash

/-- A refresh observation of another tip than the published one that is not stale. -/
def Departs (state : TipState) (input : TipInput) : Prop :=
  ∃ hash sequence, input.event = .observe hash sequence true ∧ state.stale sequence = false ∧
    state.publishedHash ≠ some hash

variable {hash : String}

theorem filter_hash_eq_some {tip : Option TipView} {view : TipView} :
    (tip.filter fun tip => tip.hash = hash) = some view ↔ tip = some view ∧ view.hash = hash := by
  simp [Option.filter_eq_some_iff]

theorem filter_hash_eq_none {tip : Option TipView} :
    (tip.filter fun tip => tip.hash = hash) = none ↔ tip.map (·.hash) ≠ some hash := by
  cases tip <;> simp [Option.filter]

variable {state after : TipState} {now : ℕ}

theorem updatePublishedTip_eq_ok (h : state.updatePublishedTip hash now = .ok after) :
    ∃ tip, after = { state with published := some tip, divergenceStarted := none } ∧
      tip.hash = hash ∧ tip.observedAt = now := by
  obtain ⟨current, hcurrent, h⟩ := bind_eq_ok.mp h
  rw [okOr_eq_ok, filter_hash_eq_some] at hcurrent
  cases h
  exact ⟨_, rfl, hcurrent.2, rfl⟩

theorem nextTipGeneration_eq_ok {generation : U64} (h : state.nextTipGeneration hash = .ok generation) :
    state.tipGeneration.val ≤ generation.val ∧
      (state.tipGeneration = generation → state.publishedHash = some hash) := by
  unfold nextTipGeneration at h
  split_ifs at h with hsame
  · cases h
    exact ⟨le_rfl, fun _ => hsame⟩
  · rw [okOr_eq_ok, Unsigned.checkedAdd_eq_some] at h
    have hone : (1 : U64).val = 1 := rfl
    refine ⟨by omega, fun heq => ?_⟩
    rw [heq] at h
    omega

/-- What one event does to the publication: nothing, a departure, or a confirmation. -/
inductive Moves (state : TipState) (input : TipInput) (after : TipState) : Prop where
  | idle (hconfirms : ¬state.Confirms input) (hdeparts : ¬state.Departs input)
      (hpublished : after.published = state.published)
      (hdivergence : after.divergenceStarted = state.divergenceStarted)
      (hpublication : after.publicationGeneration = state.publicationGeneration)
      (htip : after.tipGeneration = state.tipGeneration)
  | departs (hconfirms : ¬state.Confirms input) (hdeparts : state.Departs input)
      (hpublished : after.published = state.published)
      (hdivergence : after.divergenceStarted = state.divergenceStarted.or (some input.now))
      (hpublication : after.publicationGeneration = state.publicationGeneration)
      (htip : after.tipGeneration = state.tipGeneration)
  | refreshes (tip : TipView) (hconfirms : state.Confirms input) (hpublishes : ¬state.Publishes input)
      (hpublished : after.published = some tip) (hobserved : tip.observedAt = input.now)
      (hdivergence : after.divergenceStarted = none) (hhash : state.publishedHash = some tip.hash)
      (hpublication : after.publicationGeneration = state.publicationGeneration)
      (htip : after.tipGeneration = state.tipGeneration)
  | publishes (tip : TipView) (hpublishes : state.Publishes input)
      (hpublished : after.published = some tip) (hobserved : tip.observedAt = input.now)
      (hdivergence : after.divergenceStarted = none)
      (hpublication : state.publicationGeneration.val < after.publicationGeneration.val)
      (htip : state.tipGeneration.val ≤ after.tipGeneration.val)
      (hsame : state.tipGeneration = after.tipGeneration → state.publishedHash = some tip.hash)

variable {input : TipInput}

theorem Moves.of_idle (hconfirms : ¬state.Confirms input) (hdeparts : ¬state.Departs input)
    (hafter : ∃ current requested, after = { state with current, requested }) :
    state.Moves input after := by
  obtain ⟨current, requested, rfl⟩ := hafter
  exact .idle hconfirms hdeparts rfl rfl rfl rfl

theorem observe_moves (state : TipState) (hash : String) (sequence : U64) (fromRefresh : Bool) (now : ℕ) :
    state.Moves ⟨now, .observe hash sequence fromRefresh⟩ (state.observe hash sequence fromRefresh now) := by
  have hpublishes : ¬state.Publishes ⟨now, .observe hash sequence fromRefresh⟩ := by
    rintro ⟨_, _, hevent, -⟩
    cases hevent
  have hconfirms : state.Confirms ⟨now, .observe hash sequence fromRefresh⟩ →
      fromRefresh = true ∧ state.stale sequence = false ∧ state.publishedHash = some hash := by
    rintro (hpublish | ⟨_, _, hevent, -⟩ | ⟨_, _, hevent, hstale, hhash⟩)
    · exact absurd hpublish hpublishes
    · cases hevent
    · cases hevent
      exact ⟨rfl, hstale, hhash⟩
  have hdeparts : state.Departs ⟨now, .observe hash sequence fromRefresh⟩ →
      fromRefresh = true ∧ state.stale sequence = false ∧ state.publishedHash ≠ some hash := by
    rintro ⟨_, _, hevent, hstale, hhash⟩
    cases hevent
    exact ⟨rfl, hstale, hhash⟩
  unfold observe
  cases hstale : state.stale sequence with
  | true =>
    rw [if_pos rfl]
    exact .of_idle (fun h => Bool.false_ne_true ((hconfirms h).2.1.symm.trans hstale))
      (fun h => Bool.false_ne_true ((hdeparts h).2.1.symm.trans hstale)) ⟨_, _, rfl⟩
  | false =>
    rw [if_neg Bool.false_ne_true]
    cases fromRefresh with
    | false =>
      rw [if_neg Bool.false_ne_true]
      exact .of_idle (fun h => Bool.false_ne_true (hconfirms h).1)
        (fun h => Bool.false_ne_true (hdeparts h).1) ⟨_, _, rfl⟩
    | true =>
      rw [if_pos rfl]
      dsimp only
      cases hpublished : state.published.filter fun tip => tip.hash = hash with
      | some tip =>
        obtain ⟨htip, hhash⟩ := filter_hash_eq_some.mp hpublished
        have hsame : state.publishedHash = some hash := by rw [publishedHash, htip, Option.map_some, hhash]
        exact .refreshes _ (.inr (.inr ⟨hash, sequence, rfl, hstale, hsame⟩)) hpublishes rfl rfl rfl
          (hsame.trans (congrArg some hhash.symm)) rfl rfl
      | none =>
        have hother := filter_hash_eq_none.mp hpublished
        exact .departs (fun h => hother (hconfirms h).2.2) ⟨hash, sequence, rfl, hstale, hother⟩ rfl rfl rfl rfl

theorem apply_moves (state : TipState) (input : TipInput) : state.Moves input (state.apply input) := by
  obtain ⟨now, event⟩ := input
  cases event with
  | reserve =>
    refine .of_idle ?_ ?_ ?_
    · rintro (⟨_, _, hevent, -⟩ | ⟨_, _, hevent, -⟩ | ⟨_, _, hevent, -⟩) <;> cases hevent
    · rintro ⟨_, _, hevent, -⟩
      cases hevent
    · unfold apply reserve
      cases state.requested.checkedAdd 1 with
      | none => exact ⟨_, _, rfl⟩
      | some requested => exact ⟨_, requested, rfl⟩
  | observe hash sequence fromRefresh => exact observe_moves state hash sequence fromRefresh now
  | publish hash =>
    have hdeparts : ¬state.Departs ⟨now, .publish hash⟩ := by
      rintro ⟨_, _, hevent, -⟩
      cases hevent
    unfold apply
    dsimp only
    cases hpublish : state.publish hash now with
    | error e =>
      refine .of_idle ?_ hdeparts ⟨_, _, rfl⟩
      rintro (⟨_, after, hevent, hok⟩ | ⟨_, _, hevent, -⟩ | ⟨_, _, hevent, -⟩) <;> cases hevent
      rw [hpublish] at hok
      cases hok
    | ok after =>
      have hpublishes : state.Publishes ⟨now, .publish hash⟩ := ⟨hash, after, rfl, hpublish⟩
      obtain ⟨publicationGeneration, hpublication, h⟩ := bind_eq_ok.mp hpublish
      obtain ⟨tipGeneration, htip, h⟩ := bind_eq_ok.mp h
      obtain ⟨updated, hupdated, h⟩ := bind_eq_ok.mp h
      obtain ⟨tip, rfl, hhash, hobserved⟩ := updatePublishedTip_eq_ok hupdated
      obtain ⟨hle, hsame⟩ := nextTipGeneration_eq_ok htip
      rw [okOr_eq_ok, Unsigned.checkedAdd_eq_some] at hpublication
      cases h
      refine .publishes tip hpublishes rfl hobserved rfl ?_ hle (hhash ▸ hsame)
      change _ < publicationGeneration.val
      rw [hpublication]
      exact Nat.lt_succ_self _
  | refreshPublication hash =>
    have hdeparts : ¬state.Departs ⟨now, .refreshPublication hash⟩ := by
      rintro ⟨_, _, hevent, -⟩
      cases hevent
    have hpublishes : ¬state.Publishes ⟨now, .refreshPublication hash⟩ := by
      rintro ⟨_, _, hevent, -⟩
      cases hevent
    unfold apply
    dsimp only
    cases hrefresh : state.refreshPublication hash now with
    | error e =>
      refine .of_idle ?_ hdeparts ⟨_, _, rfl⟩
      rintro (hpublish | ⟨_, after, hevent, hok⟩ | ⟨_, _, hevent, -⟩)
      · exact hpublishes hpublish
      · cases hevent
        rw [hrefresh] at hok
        cases hok
      · cases hevent
    | ok after =>
      obtain ⟨⟨⟩, hsame, h⟩ := bind_eq_ok.mp hrefresh
      rw [require_eq_ok] at hsame
      obtain ⟨tip, rfl, hhash, hobserved⟩ := updatePublishedTip_eq_ok h
      exact .refreshes tip (.inr (.inl ⟨hash, _, rfl, hrefresh⟩)) hpublishes rfl hobserved rfl (hhash ▸ hsame)
        rfl rfl

/-- What a published tip is anchored at: its last confirmation, and the first departure since. -/
structure Anchored (inputs : List TipInput) (earlier : List TipInput) (confirm : TipInput)
    (later : List TipInput) (tip : TipView) : Prop where
  last : Replay.LastAt apply Confirms {} inputs earlier confirm later
  confirmed : (run {} (earlier ++ [confirm])).published = some tip
  observedAt : tip.observedAt = confirm.now
  undeparted : (run {} inputs).divergenceStarted = none →
    Replay.Never apply Departs (run {} (earlier ++ [confirm])) later
  departed : ∀ started, (run {} inputs).divergenceStarted = some started →
    ∃ mid depart rest, Replay.FirstAt apply Departs (run {} (earlier ++ [confirm])) later mid depart rest ∧
      depart.now = started

theorem run_concat (inputs : List TipInput) (input : TipInput) :
    run {} (inputs ++ [input]) = (run {} inputs).apply input := Replay.run_append

variable {tip : TipView}

theorem Anchored.run_eq {inputs earlier later : List TipInput} {confirm : TipInput}
    (h : Anchored inputs earlier confirm later tip) :
    Replay.run apply (run {} (earlier ++ [confirm])) later = run {} inputs := by
  rw [h.last.split, run, ← Replay.run_append, List.append_assoc, List.singleton_append]
  rfl

theorem exists_anchored (inputs : List TipInput) (h : (run {} inputs).published = some tip) :
    ∃ earlier confirm later, Anchored inputs earlier confirm later tip := by
  induction inputs using List.reverseRecOn generalizing tip with
  | nil => cases h
  | append_singleton inputs input ih =>
    have hmoves := (run {} inputs).apply_moves input
    rw [← run_concat] at hmoves
    have hfresh : (run {} inputs).Confirms input → ∀ fresh, (run {} (inputs ++ [input])).published = some fresh →
        fresh.observedAt = input.now → (run {} (inputs ++ [input])).divergenceStarted = none →
        ∃ earlier confirm later, Anchored (inputs ++ [input]) earlier confirm later tip := by
      intro hconfirms fresh hpublished hobserved hdivergence
      obtain rfl : tip = fresh := Option.some.inj (h.symm.trans hpublished)
      refine ⟨inputs, input, [], .of_holds hconfirms, hpublished, hobserved, fun _ => .nil, ?_⟩
      intro started hstarted
      rw [hdivergence] at hstarted
      cases hstarted
    cases hmoves with
    | refreshes fresh hconfirms _ hpublished hobserved hdivergence =>
      exact hfresh hconfirms fresh hpublished hobserved hdivergence
    | publishes fresh hpublishes hpublished hobserved hdivergence =>
      exact hfresh (.inl hpublishes) fresh hpublished hobserved hdivergence
    | idle hconfirms hdeparts hpublished hdivergence =>
      obtain ⟨earlier, confirm, later, hanchored⟩ := ih (hpublished.symm.trans h)
      have hstate := hanchored.run_eq
      refine ⟨earlier, confirm, later ++ [input], hanchored.last.concat hconfirms, hanchored.confirmed,
        hanchored.observedAt, ?_, ?_⟩
      · intro hnone
        exact (hanchored.undeparted (hdivergence.symm.trans hnone)).concat (hstate ▸ hdeparts)
      · intro started hstarted
        obtain ⟨mid, depart, rest, hfirst, hnow⟩ := hanchored.departed started (hdivergence.symm.trans hstarted)
        exact ⟨mid, depart, rest ++ [input], hfirst.concat, hnow⟩
    | departs hconfirms hdeparts hpublished hdivergence =>
      obtain ⟨earlier, confirm, later, hanchored⟩ := ih (hpublished.symm.trans h)
      have hstate := hanchored.run_eq
      refine ⟨earlier, confirm, later ++ [input], hanchored.last.concat hconfirms, hanchored.confirmed,
        hanchored.observedAt, ?_, ?_⟩
      · intro hnone
        rw [hdivergence, Option.or_eq_none_iff] at hnone
        cases hnone.2
      · intro started hstarted
        rw [hdivergence] at hstarted
        cases hprior : (run {} inputs).divergenceStarted with
        | none =>
          rw [hprior] at hstarted
          exact ⟨later, input, [], .of_never (hanchored.undeparted hprior) (hstate ▸ hdeparts),
            Option.some.inj hstarted⟩
        | some earlierStart =>
          rw [hprior] at hstarted
          obtain ⟨mid, depart, rest, hfirst, hnow⟩ := hanchored.departed earlierStart hprior
          exact ⟨mid, depart, rest ++ [input], hfirst.concat, hnow.trans (Option.some.inj hstarted)⟩

theorem authority_eq_some {maxAge buildBudget : ℕ} (h : state.authority maxAge buildBudget now = some tip) :
    ∃ published, state.published = some published ∧ published.hash = tip.hash ∧
      (now - published.observedAt ≤ maxAge ∨
        buildBudget ≠ 0 ∧ (∃ newest, state.current = some newest ∧ newest.hash ≠ tip.hash) ∧
          ∃ started, state.divergenceStarted = some started ∧ now - started ≤ buildBudget) := by
  unfold authority at h
  obtain ⟨published, hpublished, h⟩ := Option.bind_eq_some_iff.mp h
  dsimp only at h
  split_ifs at h with hage hlease
  cases h
  refine ⟨published, hpublished, rfl, ?_⟩
  by_cases hfresh : now - published.observedAt ≤ maxAge
  · exact .inl hfresh
  · right
    have hheld := not_not.mp fun hno => hlease ⟨Nat.lt_of_not_le hfresh, hno⟩
    simp only [diverged, Bool.and_eq_true, Option.any_eq_true, decide_eq_true_eq] at hheld
    obtain ⟨⟨⟨newest, hnewest, hother⟩, hbudget⟩, started, hstarted, helapsed⟩ := hheld
    exact ⟨hbudget, ⟨newest, hnewest, hother⟩, started, hstarted, helapsed⟩

theorem le_leaseDeadline {maxAge buildBudget : ℕ} {deadline : ℕ}
    (hdeadline : state.leaseDeadline maxAge buildBudget = .ok deadline)
    (h : state.authority maxAge buildBudget now = some tip) : now ≤ deadline := by
  obtain ⟨published, hpublished, -, hheld⟩ := authority_eq_some h
  rw [leaseDeadline] at hdeadline
  obtain ⟨tip', htip, hrest⟩ := bind_eq_ok.mp hdeadline
  obtain ⟨ordinary, hordinary, hlast⟩ := bind_eq_ok.mp hrest
  rw [okOr_eq_ok] at htip hordinary
  obtain rfl : published = tip' := Option.some.inj (hpublished.symm.trans htip)
  have hadded : ∀ {instant duration sum : ℕ}, instantCheckedAdd instant duration = some sum →
      sum = instant + duration := by
    intro instant duration sum hsum
    unfold instantCheckedAdd at hsum
    split_ifs at hsum
    exact (Option.some.inj hsum).symm
  have hordinaryEq := hadded hordinary
  have hbound : ordinary ≤ deadline ∧ ∀ started, state.divergenceStarted = some started → buildBudget ≠ 0 →
      started + buildBudget ≤ deadline := by
    cases hfilter : state.divergenceStarted.filter fun _ => buildBudget ≠ 0 with
    | none =>
      rw [hfilter] at hlast
      obtain rfl := pure_eq_ok.mp hlast
      refine ⟨le_rfl, fun started hstarted hbudget => ?_⟩
      simp [hstarted, Option.filter, hbudget] at hfilter
    | some started =>
      rw [hfilter] at hlast
      obtain ⟨replacement, hreplacement, hmax⟩ := bind_eq_ok.mp hlast
      rw [okOr_eq_ok] at hreplacement
      have hreplacementEq := hadded hreplacement
      obtain rfl := pure_eq_ok.mp hmax
      refine ⟨le_max_left _ _, fun other hother _ => ?_⟩
      obtain rfl : started = other := Option.some.inj ((Option.filter_eq_some_iff.mp hfilter).1.symm.trans hother)
      exact hreplacementEq ▸ le_max_right _ _
  rcases hheld with hfresh | ⟨hbudget, -, started, hstarted, helapsed⟩
  · omega
  · have := hbound.2 started hstarted hbudget
    omega

structure Continues (s t : TipState) : Prop where
  publication : s.publicationGeneration.val ≤ t.publicationGeneration.val
  tip : s.tipGeneration.val ≤ t.tipGeneration.val
  hash : s.tipGeneration = t.tipGeneration → s.publishedHash = t.publishedHash
  published : s.publishedHash.isSome → t.publishedHash.isSome

theorem Continues.trans {s t u : TipState} (hst : s.Continues t) (htu : t.Continues u) : s.Continues u where
  publication := hst.publication.trans htu.publication
  tip := hst.tip.trans htu.tip
  hash heq := by
    have hle := hst.tip
    have hge := htu.tip
    have hmiddle : s.tipGeneration = t.tipGeneration := Unsigned.ext (by rw [heq] at hle ⊢; omega)
    exact (hst.hash hmiddle).trans (htu.hash (hmiddle.symm.trans heq))
  published h := htu.published (hst.published h)

theorem Moves.continues (h : state.Moves input after) : state.Continues after := by
  have hkept : after.published = state.published → after.publishedHash = state.publishedHash :=
    fun heq => congrArg (Option.map TipView.hash) heq
  have hnew : ∀ tip, after.published = some tip → after.publishedHash = some tip.hash :=
    fun tip heq => congrArg (Option.map TipView.hash) heq
  cases h with
  | idle _ _ hpublished _ hpublication htip | departs _ _ hpublished _ hpublication htip =>
    exact ⟨hpublication ▸ le_rfl, htip ▸ le_rfl, fun _ => (hkept hpublished).symm,
      fun hsome => hkept hpublished ▸ hsome⟩
  | refreshes tip _ _ hpublished _ _ hhash hpublication htip =>
    exact ⟨hpublication ▸ le_rfl, htip ▸ le_rfl, fun _ => hhash.trans (hnew tip hpublished).symm,
      fun _ => by rw [hnew tip hpublished]; rfl⟩
  | publishes tip _ hpublished _ _ hpublication htip hsame =>
    exact ⟨hpublication.le, htip, fun heq => (hsame heq).trans (hnew tip hpublished).symm,
      fun _ => by rw [hnew tip hpublished]; rfl⟩

theorem run_continues (state : TipState) (inputs : List TipInput) : state.Continues (run state inputs) := by
  refine @Replay.run_keeps _ _ _ _ (fun t => state.Continues t) ?_ ⟨le_rfl, le_rfl, fun _ => rfl, id⟩ inputs
  exact fun t input ht => ht.trans (t.apply_moves input).continues

theorem run_append (state : TipState) (earlier later : List TipInput) :
    run state (earlier ++ later) = run (run state earlier) later := Replay.run_append

theorem publishes_generation (h : state.Publishes input) :
    state.publicationGeneration.val < (state.apply input).publicationGeneration.val ∧
      (state.apply input).publishedHash.isSome := by
  cases state.apply_moves input with
  | idle hconfirms | departs hconfirms => exact absurd (.inl h) hconfirms
  | refreshes _ _ hpublishes => exact absurd h hpublishes
  | publishes tip _ hpublished _ _ hpublication =>
    exact ⟨hpublication, by rw [publishedHash, hpublished]; rfl⟩

theorem publicationStamp_eq_none : state.publicationStamp = none ↔ state.publishedHash = none := by
  simp [publicationStamp, publishedHash]

theorem never_publishes {inputs : List TipInput} (h : state.publicationStamp = (run state inputs).publicationStamp) :
    Replay.Never apply Publishes state inputs := by
  rintro earlier input later rfl hpublishes
  have hbefore := state.run_continues earlier
  have hafter := ((run state earlier).apply input).run_continues later
  have hrun : run state (earlier ++ input :: later) = run ((run state earlier).apply input) later :=
    run_append state earlier (input :: later)
  obtain ⟨hraised, hsome⟩ := publishes_generation hpublishes
  rw [← hrun] at hafter
  have hend := hafter.published hsome
  cases hstamp : (run state (earlier ++ input :: later)).publicationStamp with
  | none =>
    rw [publicationStamp_eq_none.mp hstamp] at hend
    cases hend
  | some stamp =>
    have hgeneration : ∀ {s : TipState}, s.publicationStamp = some stamp → s.publicationGeneration = stamp.2 := by
      intro s hs
      obtain ⟨tip, -, rfl⟩ := Option.map_eq_some_iff.mp hs
      rfl
    have hsame := congrArg Unsigned.val ((hgeneration (h.trans hstamp)).trans (hgeneration hstamp).symm)
    have hle := hbefore.publication
    have hge := hafter.publication
    have hlt : (run state earlier).publicationGeneration.val <
      ((run state earlier).apply input).publicationGeneration.val := hraised
    omega

theorem publishedHash_constant {earlier later : List TipInput}
    (h : state.issuanceTip = (run state (earlier ++ later)).issuanceTip) :
    (run state earlier).publishedHash = state.publishedHash := by
  have hbefore := state.run_continues earlier
  have hafter := (run state earlier).run_continues later
  rw [← run_append] at hafter
  cases htip : state.issuanceTip with
  | none =>
    have hnone : state.publishedHash = none := by simpa [issuanceTip, publishedHash] using htip
    have hend : (run state (earlier ++ later)).publishedHash = none := by
      simpa [issuanceTip, publishedHash] using h.symm.trans htip
    rw [hnone]
    cases hmiddle : (run state earlier).publishedHash with
    | none => rfl
    | some hash =>
      have hsome := hafter.published (by rw [hmiddle]; rfl)
      rw [hend] at hsome
      cases hsome
  | some stamp =>
    have hgeneration : ∀ {s : TipState}, s.issuanceTip = some stamp → s.tipGeneration = stamp.2 := by
      intro s hs
      obtain ⟨tip, -, rfl⟩ := Option.map_eq_some_iff.mp hs
      rfl
    have hsame := (hgeneration htip).trans (hgeneration (h.symm.trans htip)).symm
    have hle := hbefore.tip
    have hge := hafter.tip
    rw [← hsame] at hge
    exact (hbefore.hash (Unsigned.ext (by omega))).symm

variable {newest : TipView}

theorem observe_stale {sequence : U64} {fromRefresh : Bool} (hcurrent : state.current = some newest)
    (hold : sequence.val < newest.sequence.val) :
    state.observe hash sequence fromRefresh now = state := by
  have hstale : state.stale sequence = true := by
    rw [stale, hcurrent]
    exact decide_eq_true hold
  rw [observe, if_pos hstale]

theorem observe_current (state : TipState) (hash : String) (sequence : U64) (fromRefresh : Bool) (now : ℕ)
    (hfresh : state.stale sequence = false) :
    (state.observe hash sequence fromRefresh now).current = some (state.nextCurrent hash sequence now) := by
  unfold observe
  rw [if_neg (by rw [hfresh]; exact Bool.false_ne_true)]
  dsimp only
  split_ifs
  · split <;> rfl
  · rfl

theorem nextCurrent_sequence (state : TipState) (hash : String) (sequence : U64) (now : ℕ) :
    (state.nextCurrent hash sequence now).sequence = sequence := by
  unfold nextCurrent
  split <;> rfl

theorem updatePublishedTip_current (h : state.updatePublishedTip hash now = .ok after) :
    after.current = state.current := by
  obtain ⟨tip, rfl, -, -⟩ := updatePublishedTip_eq_ok h
  rfl

theorem apply_current (hcurrent : state.current = some newest) :
    ∃ newer, (state.apply input).current = some newer ∧ newest.sequence.val ≤ newer.sequence.val := by
  have hkept : ∀ {after : TipState}, after.current = state.current →
      ∃ newer, after.current = some newer ∧ newest.sequence.val ≤ newer.sequence.val :=
    fun heq => ⟨newest, heq.trans hcurrent, le_rfl⟩
  obtain ⟨now, event⟩ := input
  cases event with
  | reserve =>
    apply hkept
    unfold apply reserve
    cases state.requested.checkedAdd 1 <;> rfl
  | observe hash sequence fromRefresh =>
    unfold apply
    dsimp only
    by_cases hold : sequence.val < newest.sequence.val
    · exact hkept (by rw [observe_stale hcurrent hold])
    · have hfresh : state.stale sequence = false := by
        rw [stale, hcurrent]
        exact decide_eq_false hold
      refine ⟨_, observe_current state hash sequence fromRefresh now hfresh, ?_⟩
      rw [nextCurrent_sequence]
      exact Nat.le_of_not_lt hold
  | publish hash =>
    apply hkept
    unfold apply
    dsimp only
    cases hpublish : state.publish hash now with
    | error e => rfl
    | ok after =>
      obtain ⟨_, -, h⟩ := bind_eq_ok.mp hpublish
      obtain ⟨_, -, h⟩ := bind_eq_ok.mp h
      obtain ⟨updated, hupdated, h⟩ := bind_eq_ok.mp h
      have hcurrentEq := updatePublishedTip_current hupdated
      cases h
      exact hcurrentEq
  | refreshPublication hash =>
    apply hkept
    unfold apply
    dsimp only
    cases hrefresh : state.refreshPublication hash now with
    | error e => rfl
    | ok after =>
      obtain ⟨⟨⟩, -, h⟩ := bind_eq_ok.mp hrefresh
      exact updatePublishedTip_current h

theorem run_current (hcurrent : state.current = some newest) (inputs : List TipInput) :
    ∃ newer, (run state inputs).current = some newer ∧ newest.sequence.val ≤ newer.sequence.val := by
  refine @Replay.run_keeps _ _ _ _ (fun t : TipState => ∃ newer, t.current = some newer ∧
    newest.sequence.val ≤ newer.sequence.val) ?_ ⟨newest, hcurrent, le_rfl⟩ inputs
  rintro t input ⟨newer, hnewer, hle⟩
  obtain ⟨newest', hnewest', hle'⟩ := @apply_current t input newer hnewer
  exact ⟨newest', hnewest', hle.trans hle'⟩

/-- Over any run: authority holds only within `maxAge` of the last confirmation of the published tip, or
within the budget of the first refresh departure after it; an older observation never replaces a newer
one; the lease deadline is not before the authority's end; and equal stamps mean no publication, and no
change of the published tip, in between. -/
theorem authority_bounded (inputs : List TipInput) :
    (∀ maxAge buildBudget now tip, (run {} inputs).authority maxAge buildBudget now = some tip →
      ∃ earlier confirm later, Replay.LastAt apply Confirms {} inputs earlier confirm later ∧
        (run {} (earlier ++ [confirm])).publishedHash = some tip.hash ∧
        (now - confirm.now ≤ maxAge ∨
          buildBudget ≠ 0 ∧ (∃ newest, (run {} inputs).current = some newest ∧ newest.hash ≠ tip.hash) ∧
            ∃ mid depart rest,
              Replay.FirstAt apply Departs (run {} (earlier ++ [confirm])) later mid depart rest ∧
                now - depart.now ≤ buildBudget)) ∧
    (∀ newest, (run {} inputs).current = some newest →
      (∀ hash sequence fromRefresh now, sequence.val < newest.sequence.val →
        (run {} inputs).observe hash sequence fromRefresh now = run {} inputs) ∧
      ∀ more, ∃ newer, (run {} (inputs ++ more)).current = some newer ∧
        newest.sequence.val ≤ newer.sequence.val) ∧
    (∀ maxAge buildBudget now tip deadline, (run {} inputs).leaseDeadline maxAge buildBudget = .ok deadline →
      (run {} inputs).authority maxAge buildBudget now = some tip → now ≤ deadline) ∧
    (∀ more, (run {} inputs).publicationStamp = (run {} (inputs ++ more)).publicationStamp →
      Replay.Never apply Publishes (run {} inputs) more) ∧
    ∀ more rest, (run {} inputs).issuanceTip = (run {} (inputs ++ (more ++ rest))).issuanceTip →
      (run {} (inputs ++ more)).publishedHash = (run {} inputs).publishedHash := by
  refine ⟨?_, ?_, fun _ _ _ _ _ => le_leaseDeadline, ?_, ?_⟩
  · intro maxAge buildBudget now tip h
    obtain ⟨published, hpublished, hhash, hheld⟩ := authority_eq_some h
    obtain ⟨earlier, confirm, later, hanchored⟩ := exists_anchored inputs hpublished
    refine ⟨earlier, confirm, later, hanchored.last, ?_, ?_⟩
    · rw [publishedHash, hanchored.confirmed, Option.map_some, hhash]
    · rcases hheld with hfresh | ⟨hbudget, hnewest, started, hstarted, helapsed⟩
      · exact .inl (hanchored.observedAt ▸ hfresh)
      · obtain ⟨mid, depart, rest, hfirst, hnow⟩ := hanchored.departed started hstarted
        exact .inr ⟨hbudget, hnewest, mid, depart, rest, hfirst, hnow ▸ helapsed⟩
  · intro newest hcurrent
    refine ⟨fun _ _ _ _ hold => observe_stale hcurrent hold, fun more => ?_⟩
    rw [run_append]
    exact run_current hcurrent more
  · intro more h
    rw [run_append] at h
    exact never_publishes h
  · intro more rest h
    rw [run_append] at h
    rw [run_append]
    exact publishedHash_constant h

/-- Tip "a" is published at 12; a refresh leaves it for "b" at 20 and tries "c" at 30. -/
def departedRun : List TipInput :=
  [⟨10, .reserve⟩, ⟨11, .observe "a" 1 true⟩, ⟨12, .publish "a"⟩, ⟨20, .observe "b" 2 true⟩,
    ⟨30, .observe "c" 3 true⟩]

theorem authority_bounded_departed :
    ∃ tip, (run {} departedRun).authority 5 10 25 = some tip ∧
      ∃ earlier confirm later, Replay.LastAt apply Confirms {} departedRun earlier confirm later ∧
        (run {} (earlier ++ [confirm])).publishedHash = some tip.hash := by
  obtain ⟨tip, htip⟩ := Option.isSome_iff_exists.mp
    (show ((run {} departedRun).authority 5 10 25).isSome by decide +kernel)
  obtain ⟨earlier, confirm, later, hlast, hpublished, -⟩ := (authority_bounded departedRun).1 5 10 25 tip htip
  exact ⟨tip, htip, earlier, confirm, later, hlast, hpublished⟩

end TipState

end QbitPrism
