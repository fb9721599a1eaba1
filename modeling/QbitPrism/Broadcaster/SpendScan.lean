import Mathlib
import QbitPrism.Lib.Transition

/-!
# The spend scan of a fanout

When a covenant output is gone and its spender is not known, the broadcaster reads the active chain from
the maturity height on, a page of blocks at a time, and persists after every block the next height and the
last block's hash. A pass works under a claim that may be lost, may end at any point, and reads a node whose
active chain may be reorganised between any two calls. Heights are natural numbers. A chain is the list of
its blocks, so a block is known by the chain that ends in it, and its hash commits to that chain.
-/
namespace QbitPrism.SpendScan

/-- A transaction's ID and the outputs it spends. -/
structure Tx where
  txid : String
  vin : List (String × ℕ)
  deriving DecidableEq

/-- The blocks from the first one to the tip. -/
abbrev Chain := List (List Tx)

structure Fanout where
  parentCoinbaseTxid : String
  parentCoinbaseVout : ℕ
  fanoutTxid : String
  matureHeight : ℕ

/-- The hash of the block a chain ends in, and the chain's work. -/
structure Consensus (H : Type) where
  hash : Chain → H
  hash_injective : Function.Injective hash
  work : Chain → ℕ

/-- `scan_next_height`, and `scan_anchor_height` with `scan_anchor_hash`. -/
structure Progress (H : Type) where
  scanNextHeight : Option ℕ
  scanAnchor : Option (ℕ × H)

inductive Outcome (H : Type) where
  | confirmed (blockHash : H) (blockHeight confirmations nextCheckSeconds : ℕ)
  | pending (nextHeight nextCheckSeconds : ℕ)
  | failed (error : String)

/-- What a pass has fixed before it reads its first block. -/
structure Window where
  tip : Chain
  next : ℕ
  endHeight : ℕ

inductive Stage (H : Type) where
  | viewing
  | anchoring (tip : Chain)
  | paging (window : Window) (number : ℕ)
  | checking (window : Window) (number : ℕ) (page : Chain)
  | recording (window : Window) (number : ℕ) (page : Chain)
  | finished (outcome : Outcome H)

/-- A pass under one claim, with the progress its claim returned. -/
structure Pass (H : Type) where
  token : ℕ
  budget : ℕ
  progress : Progress H
  stage : Stage H

/-- The node's active chain, the persisted progress and the claim that holds the fanout. -/
structure Shared (H : Type) where
  chain : Chain
  progress : Progress H
  holder : Option ℕ

def tipHeight (chain : Chain) : ℕ := chain.length - 1

def blockAt (chain : Chain) (height : ℕ) : Option Chain :=
  if height < chain.length then some (chain.take (height + 1)) else none

section Model
variable {H : Type} [DecidableEq H] (consensus : Consensus H) (fanout : Fanout)

/-- The transaction of the block that spends the covenant output. -/
def Fanout.spender (block : List Tx) : Option Tx :=
  block.find? fun tx => tx.vin.any fun input =>
    input.1 = fanout.parentCoinbaseTxid && input.2 = fanout.parentCoinbaseVout

def confirmed (hash : H) (height tip : ℕ) : Outcome H :=
  if height ≤ tip then
    let depth := tip - height + 1
    .confirmed hash height depth (if 1000 ≤ depth then 60 else 5)
  else .failed "confirmation above active tip"

/-- Where the blocks are read from: the persisted height, unless its anchor is not on the active chain. -/
def resumeHeight (progress : Progress H) (tip active : Chain) : Option ℕ :=
  let next := max (progress.scanNextHeight.getD fanout.matureHeight) fanout.matureHeight
  match progress.scanAnchor with
  | none => some next
  | some (height, hash) =>
    if tipHeight tip < height then some fanout.matureHeight
    else (blockAt active height).map fun block => if consensus.hash block = hash then next else fanout.matureHeight

def Window.nextCheckSeconds (window : Window) : ℕ := if tipHeight window.tip < window.next then 10 else 1

def scanBlock (window : Window) (number : ℕ) (page : Chain) : Stage H :=
  match page.getLast?.bind fanout.spender with
  | none => .recording window number page
  | some tx =>
    if tx.txid = fanout.fanoutTxid then .finished (confirmed (consensus.hash page) number (tipHeight window.tip))
    else .finished (.failed "covenant spent by an unexpected transaction")

/-- One call of a pass to the node or the ledger, with what follows it. -/
def advance (shared : Shared H) (pass : Pass H) : Shared H × Stage H :=
  match pass.stage with
  | .viewing =>
    if tipHeight shared.chain < fanout.matureHeight then (shared, .finished (.failed "fanout coinbase is immature"))
    else (shared, .anchoring shared.chain)
  | .anchoring tip =>
    match resumeHeight consensus fanout pass.progress tip shared.chain with
    | none => (shared, .finished (.failed "Block height out of range"))
    | some next => (shared, .paging ⟨tip, next, min (tipHeight tip) (next + (pass.budget - 1))⟩ next)
  | .paging window number =>
    if window.endHeight < number then
      (shared, .finished (.pending (window.endHeight + 1) window.nextCheckSeconds))
    else if shared.holder ≠ some pass.token then (shared, .finished (.failed "fanout claim lost"))
    else
      match blockAt shared.chain number with
      | none => (shared, .finished (.failed "Block height out of range"))
      | some page => (shared, .checking window number page)
  | .checking window number page =>
    if consensus.hash shared.chain ≠ consensus.hash window.tip then
      (shared, .finished (.failed "tip changed during CTV spend scan"))
    else (shared, scanBlock consensus fanout window number page)
  | .recording window number page =>
    if shared.holder ≠ some pass.token then (shared, .finished (.failed "fanout claim lost"))
    else
      ({ shared with progress := ⟨some (number + 1), some (number, consensus.hash page)⟩ },
        .paging window (number + 1))
  | .finished outcome => (shared, .finished outcome)

/-- The shared state and the passes under way, by their claims' tokens. -/
structure World (H : Type) extends Shared H where
  passes : ℕ → Option (Pass H)
  nextToken : ℕ

def World.start (chain : Chain) : World H := ⟨⟨chain, ⟨none, none⟩, none⟩, fun _ => none, 0⟩

def World.claim (w : World H) (budget : ℕ) : World H where
  chain := w.chain
  progress := w.progress
  holder := some w.nextToken
  passes := Function.update w.passes w.nextToken (some ⟨w.nextToken, budget, w.progress, .viewing⟩)
  nextToken := w.nextToken + 1

def World.advance (w : World H) (pass : Pass H) : World H :=
  let (shared, stage) := SpendScan.advance consensus fanout w.toShared pass
  { w with toShared := shared, passes := Function.update w.passes pass.token (some { pass with stage }) }

/-- A reorganisation, a claim, a lost claim, one call of a pass, or the end of a process. -/
inductive Step : World H → World H → Prop where
  | reorganise (w : World H) (chain : Chain) (hwork : consensus.work w.chain < consensus.work chain) :
      Step w { w with chain }
  | claim (w : World H) (budget : ℕ) (hbudget : 1 ≤ budget ∧ budget ≤ 256) : Step w (w.claim budget)
  | lose (w : World H) : Step w { w with holder := none }
  | advance (w : World H) (pass : Pass H) (hpass : w.passes pass.token = some pass) :
      Step w (w.advance consensus fanout pass)
  | crash (w : World H) (token : ℕ) : Step w { w with passes := Function.update w.passes token none }

end Model

section Safety
variable {H : Type} {consensus : Consensus H} {fanout : Fanout}

/-- No block of the chain from the maturity height and below `height` spends the output. -/
def Fanout.Clean (fanout : Fanout) (chain : Chain) (height : ℕ) : Prop :=
  ∀ i block, fanout.matureHeight ≤ i → i < height → chain[i]? = some block → fanout.spender block = none

/-- The anchor is the last of a clean chain's blocks, whichever chain is active. -/
def Progress.Sound (consensus : Consensus H) (fanout : Fanout) (progress : Progress H) : Prop :=
  match progress.scanAnchor with
  | none => progress.scanNextHeight = none
  | some (height, hash) =>
    progress.scanNextHeight = some (height + 1) ∧ fanout.matureHeight ≤ height ∧
      ∃ chain, consensus.hash chain = hash ∧ chain.length = height + 1 ∧ fanout.Clean chain (height + 1)

variable {chain page active : Chain} {height next : ℕ} {progress : Progress H} {block : List Tx} {w : World H}
  {tx : Tx}

theorem Fanout.Clean.take : fanout.Clean (chain.take height) height ↔ fanout.Clean chain height := by
  refine forall₄_congr fun i block _ hlt => ?_
  rw [List.getElem?_take_of_lt hlt]

theorem blockAt_eq_some :
    blockAt chain height = some page ↔ height < chain.length ∧ page = chain.take (height + 1) := by
  unfold blockAt
  split_ifs with h
  · rw [Option.some.injEq, eq_comm]
    exact (and_iff_right h).symm
  · simp [h]

theorem Fanout.Clean.mature (chain : Chain) : fanout.Clean chain fanout.matureHeight :=
  fun _ _ hle hlt => absurd hlt (Nat.not_lt.mpr hle)

/-- What a pass knows. The tip it started from never returns once it was left, so what it read holds as long
as that tip is active, and for good when the tip is checked again. -/
def Stage.Sound (consensus : Consensus H) (fanout : Fanout) (active : Chain) : Stage H → Prop
  | viewing => True
  | anchoring tip => consensus.work tip ≤ consensus.work active
  | paging window number =>
    consensus.work window.tip ≤ consensus.work active ∧
      (active = window.tip → fanout.matureHeight ≤ number ∧ fanout.Clean window.tip number)
  | checking window number page =>
    consensus.work window.tip ≤ consensus.work active ∧
      (active = window.tip → fanout.matureHeight ≤ number ∧ fanout.Clean window.tip number ∧
        blockAt window.tip number = some page)
  | recording window number page =>
    consensus.work window.tip ≤ consensus.work active ∧ fanout.matureHeight ≤ number ∧
      fanout.Clean window.tip (number + 1) ∧ blockAt window.tip number = some page
  | finished _ => True

theorem Stage.Sound.reorganise {stage : Stage H} (h : stage.Sound consensus fanout active)
    (hwork : consensus.work active < consensus.work chain) : stage.Sound consensus fanout chain := by
  have hleft : ∀ tip, consensus.work tip ≤ consensus.work active → chain ≠ tip := by
    rintro tip hle rfl
    exact absurd hwork (Nat.not_lt.mpr hle)
  cases stage with
  | viewing | finished => trivial
  | anchoring tip => exact h.trans hwork.le
  | paging | checking => exact ⟨h.1.trans hwork.le, fun heq => absurd heq (hleft _ h.1)⟩
  | recording window number page => exact ⟨h.1.trans hwork.le, h.2⟩

theorem getLast?_blockAt (h : blockAt chain height = some page) : page.getLast? = chain[height]? := by
  obtain ⟨hlt, rfl⟩ := blockAt_eq_some.mp h
  rw [List.getLast?_eq_getElem?, List.length_take, min_eq_left (by omega), Nat.add_sub_cancel,
    List.getElem?_take_of_lt (Nat.lt_succ_self _)]

theorem Fanout.Clean.succ (h : fanout.Clean chain height) (hblock : chain[height]?.bind fanout.spender = none) :
    fanout.Clean chain (height + 1) := by
  intro i block hmature hlt hget
  rcases Nat.lt_succ_iff_lt_or_eq.mp hlt with hlt | rfl
  · exact h i block hmature hlt hget
  · rwa [hget, Option.bind_some] at hblock

theorem scanBlock_sound {window : Window} {number : ℕ}
    (h : (Stage.checking window number page : Stage H).Sound consensus fanout window.tip) :
    (scanBlock consensus fanout window number page).Sound consensus fanout window.tip := by
  obtain ⟨-, h⟩ := h
  obtain ⟨hmature, hclean, hpage⟩ := h rfl
  unfold scanBlock
  rw [getLast?_blockAt hpage]
  split
  · next hnone => exact ⟨le_rfl, hmature, hclean.succ hnone, hpage⟩
  · split_ifs <;> trivial

theorem Progress.Sound.recorded {window : Window} {number : ℕ}
    (h : (Stage.recording window number page : Stage H).Sound consensus fanout active) :
    Progress.Sound consensus fanout ⟨some (number + 1), some (number, consensus.hash page)⟩ := by
  obtain ⟨-, hmature, hclean, hpage⟩ := h
  obtain ⟨hlt, rfl⟩ := blockAt_eq_some.mp hpage
  refine ⟨rfl, hmature, _, rfl, ?_, Fanout.Clean.take.mpr hclean⟩
  rw [List.length_take, min_eq_left (by omega)]

theorem Progress.Sound.clean (h : progress.Sound consensus fanout) (hpage : blockAt active height = some page)
    (hanchor : progress.scanAnchor = some (height, consensus.hash page)) :
    progress.scanNextHeight = some (height + 1) ∧ fanout.Clean active (height + 1) := by
  unfold Progress.Sound at h
  rw [hanchor] at h
  obtain ⟨hnext, -, chain, hhash, -, hclean⟩ := h
  obtain ⟨-, rfl⟩ := blockAt_eq_some.mp hpage
  exact ⟨hnext, Fanout.Clean.take.mp (consensus.hash_injective hhash ▸ hclean)⟩

structure Inv (consensus : Consensus H) (fanout : Fanout) (w : World H) : Prop where
  progress : w.progress.Sound consensus fanout
  passes : ∀ token pass, w.passes token = some pass →
    pass.progress.Sound consensus fanout ∧ pass.stage.Sound consensus fanout w.chain

theorem inv_start (chain : Chain) : Inv consensus fanout (World.start chain) where
  progress := rfl
  passes := by simp [World.start]

theorem exists_first_spender (hmature : fanout.matureHeight ≤ height) (hblock : chain[height]? = some block)
    (hspent : (fanout.spender block).isSome = true) :
    ∃ first, fanout.matureHeight ≤ first ∧ first ≤ height ∧ fanout.Clean chain first ∧
      ∃ block tx, chain[first]? = some block ∧ fanout.spender block = some tx := by
  have hexists : ∃ i, fanout.matureHeight ≤ i ∧ ∃ block tx, chain[i]? = some block ∧ fanout.spender block = some tx := by
    obtain ⟨tx, htx⟩ := Option.isSome_iff_exists.mp hspent
    exact ⟨height, hmature, block, tx, hblock, htx⟩
  classical
  obtain ⟨hfirst, hspender⟩ := Nat.find_spec hexists
  refine ⟨Nat.find hexists, hfirst, ?_, fun i other hle hlt hother => ?_, hspender⟩
  · obtain ⟨tx, htx⟩ := Option.isSome_iff_exists.mp hspent
    exact Nat.find_min' hexists ⟨hmature, block, tx, hblock, htx⟩
  · rw [Option.eq_none_iff_forall_ne_some]
    intro tx htx
    exact Nat.find_min hexists hlt ⟨hle, other, tx, hother, htx⟩

variable [DecidableEq H]

theorem resumeHeight_clean {tip : Chain} (hsound : progress.Sound consensus fanout)
    (h : resumeHeight consensus fanout progress tip tip = some next) :
    fanout.matureHeight ≤ next ∧ fanout.Clean tip next := by
  unfold resumeHeight at h
  unfold Progress.Sound at hsound
  cases hanchor : progress.scanAnchor with
  | none =>
    rw [hanchor] at h hsound
    rw [hsound, Option.getD_none, max_self] at h
    cases h
    exact ⟨le_rfl, .mature tip⟩
  | some anchor =>
    obtain ⟨height, hash⟩ := anchor
    rw [hanchor] at h hsound
    obtain ⟨hnext, hmature, chain, hhash, hlength, hclean⟩ := hsound
    dsimp only at h
    split_ifs at h with habove
    · cases h
      exact ⟨le_rfl, .mature tip⟩
    · obtain ⟨page, hpage, hresume⟩ := Option.map_eq_some_iff.mp h
      obtain ⟨hlt, rfl⟩ := blockAt_eq_some.mp hpage
      split_ifs at hresume with hsame
      · have hchain : tip.take (height + 1) = chain := consensus.hash_injective (hsame.trans hhash.symm)
        rw [hnext, Option.getD_some, max_eq_left (by omega)] at hresume
        subst hresume
        exact ⟨by omega, Fanout.Clean.take.mp (hchain ▸ hclean)⟩
      · cases hresume
        exact ⟨le_rfl, .mature tip⟩

theorem advance_sound {shared : Shared H} {pass : Pass H} (hshared : shared.progress.Sound consensus fanout)
    (hpass : pass.progress.Sound consensus fanout) (hstage : pass.stage.Sound consensus fanout shared.chain) :
    (advance consensus fanout shared pass).1.chain = shared.chain ∧
      (advance consensus fanout shared pass).1.progress.Sound consensus fanout ∧
      (advance consensus fanout shared pass).2.Sound consensus fanout shared.chain := by
  unfold advance
  cases hcase : pass.stage with
  | viewing =>
    dsimp only
    split_ifs
    · exact ⟨rfl, hshared, trivial⟩
    · exact ⟨rfl, hshared, le_rfl⟩
  | anchoring tip =>
    rw [hcase] at hstage
    dsimp only
    split
    · exact ⟨rfl, hshared, trivial⟩
    · next next hresume =>
        refine ⟨rfl, hshared, hstage, fun heq => ?_⟩
        rw [heq] at hresume
        exact resumeHeight_clean hpass hresume
  | paging window number =>
    rw [hcase] at hstage
    obtain ⟨hwork, hclean⟩ := hstage
    dsimp only
    split_ifs
    · exact ⟨rfl, hshared, trivial⟩
    · exact ⟨rfl, hshared, trivial⟩
    · split
      · exact ⟨rfl, hshared, trivial⟩
      · next page hpage =>
          refine ⟨rfl, hshared, hwork, fun heq => ?_⟩
          obtain ⟨hmature, hclean⟩ := hclean heq
          exact ⟨hmature, hclean, heq ▸ hpage⟩
  | checking window number page =>
    rw [hcase] at hstage
    dsimp only
    split_ifs with hsame
    · exact ⟨rfl, hshared, trivial⟩
    · have hactive : shared.chain = window.tip := consensus.hash_injective (not_not.mp hsame)
      rw [hactive] at hstage
      exact ⟨rfl, hshared, hactive ▸ scanBlock_sound hstage⟩
  | recording window number page =>
    rw [hcase] at hstage
    dsimp only
    split_ifs
    · exact ⟨rfl, hshared, trivial⟩
    · exact ⟨rfl, .recorded hstage, hstage.1, fun _ => ⟨hstage.2.1.trans (Nat.le_succ _), hstage.2.2.1⟩⟩
  | finished outcome => exact ⟨rfl, hshared, trivial⟩

theorem Inv.step {w' : World H} (h : Inv consensus fanout w) (hstep : Step consensus fanout w w') :
    Inv consensus fanout w' := by
  cases hstep with
  | reorganise chain hwork =>
    refine ⟨h.progress, fun token pass hpass => ?_⟩
    obtain ⟨hprogress, hstage⟩ := h.passes token pass hpass
    exact ⟨hprogress, hstage.reorganise hwork⟩
  | claim budget _ =>
    refine ⟨h.progress, fun token pass hpass => ?_⟩
    by_cases htoken : token = w.nextToken
    · subst htoken
      cases (Function.update_self ..).symm.trans hpass
      exact ⟨h.progress, trivial⟩
    · exact h.passes token pass ((Function.update_of_ne htoken ..).symm.trans hpass)
  | lose => exact ⟨h.progress, h.passes⟩
  | advance pass hpass =>
    obtain ⟨hprogress, hstage⟩ := h.passes pass.token pass hpass
    obtain ⟨hchain, hshared, hnext⟩ := advance_sound h.progress hprogress hstage
    refine ⟨hshared, fun token other hother => ?_⟩
    change _ ∧ other.stage.Sound consensus fanout (advance consensus fanout w.toShared pass).1.chain
    rw [hchain]
    by_cases htoken : token = pass.token
    · subst htoken
      cases (Function.update_self ..).symm.trans hother
      exact ⟨hprogress, hnext⟩
    · exact h.passes token other ((Function.update_of_ne htoken ..).symm.trans hother)
  | crash token =>
    refine ⟨h.progress, fun other pass hpass => ?_⟩
    by_cases htoken : other = token
    · subst htoken
      cases (Function.update_self ..).symm.trans hpass
    · exact h.passes other pass ((Function.update_of_ne htoken ..).symm.trans hpass)

theorem inv_run (hrun : Relation.ReflTransGen (Step consensus fanout) (World.start chain) w) :
    Inv consensus fanout w :=
  Transition.run_keeps (fun _ _ h hstep => h.step hstep) (inv_start chain) hrun

def drive (consensus : Consensus H) (fanout : Fanout) : ℕ → Shared H → Pass H → Shared H × Stage H
  | 0, shared, pass => (shared, pass.stage)
  | calls + 1, shared, pass =>
    let (shared, stage) := advance consensus fanout shared pass
    drive consensus fanout calls shared { pass with stage }

def World.soloPass (consensus : Consensus H) (fanout : Fanout) (w : World H) (budget : ℕ) : World H × Stage H :=
  let claimed := w.claim budget
  let pass : Pass H := ⟨w.nextToken, budget, w.progress, .viewing⟩
  let (shared, stage) := drive consensus fanout (3 * budget + 3) claimed.toShared pass
  ({ claimed with toShared := shared, passes := Function.update claimed.passes pass.token (some { pass with stage }) },
    stage)

/-- So many passes, one after the other, each with its own budget. -/
def World.soloPasses (consensus : Consensus H) (fanout : Fanout) (w : World H) (budgets : ℕ → ℕ) : ℕ → World H
  | 0 => w
  | count + 1 =>
    World.soloPasses consensus fanout (w.soloPass consensus fanout (budgets 0)).1 (fun i => budgets (i + 1)) count

/-- The end of a pass that reached the spender at `height` of the chain. -/
def Reports (consensus : Consensus H) (fanout : Fanout) (chain : Chain) (height : ℕ) (stage : Stage H) : Prop :=
  ∃ block tx, chain[height]? = some block ∧ fanout.spender block = some tx ∧
    stage = .finished (if tx.txid = fanout.fanoutTxid then
      confirmed (consensus.hash (chain.take (height + 1))) height (tipHeight chain)
    else .failed "covenant spent by an unexpected transaction")

theorem drive_finished (calls : ℕ) (shared : Shared H) (pass : Pass H) (outcome : Outcome H) :
    drive consensus fanout calls shared { pass with stage := .finished outcome } = (shared, .finished outcome) := by
  induction calls with
  | zero => rfl
  | succ calls ih => exact ih

section Still
variable {shared : Shared H} {pass : Pass H} {window : Window} {number : ℕ}

section
variable (hstill : shared.chain = window.tip)
include hstill

theorem advance_paging (hholder : shared.holder = some pass.token)
    (hend : number ≤ window.endHeight) (hlt : number < window.tip.length) :
    advance consensus fanout shared { pass with stage := .paging window number } =
      (shared, .checking window number (window.tip.take (number + 1))) := by
  have hpage : blockAt shared.chain number = some (window.tip.take (number + 1)) :=
    blockAt_eq_some.mpr ⟨hstill ▸ hlt, by rw [hstill]⟩
  simp only [advance, if_neg (Nat.not_lt.mpr hend), hholder, ne_eq, not_true_eq_false, if_false, hpage]

theorem advance_checking (page : Chain) :
    advance consensus fanout shared { pass with stage := .checking window number page } =
      (shared, scanBlock consensus fanout window number page) := by
  simp only [advance, hstill, ne_eq, not_true_eq_false, if_false]

theorem drive_clean (hholder : shared.holder = some pass.token) (hend : number ≤ window.endHeight)
    (hlt : number < window.tip.length) (hclean : window.tip[number]?.bind fanout.spender = none) (calls : ℕ) :
    drive consensus fanout (calls + 3) shared { pass with stage := .paging window number } =
      drive consensus fanout calls
        { shared with
          progress := ⟨some (number + 1), some (number, consensus.hash (window.tip.take (number + 1)))⟩ }
        { pass with stage := .paging window (number + 1) } := by
  have hscan : scanBlock consensus fanout window number (window.tip.take (number + 1)) =
      .recording window number (window.tip.take (number + 1)) := by
    unfold scanBlock
    rw [getLast?_blockAt (blockAt_eq_some.mpr ⟨hlt, rfl⟩), hclean]
  rw [drive, advance_paging hstill hholder hend hlt]
  dsimp only
  rw [drive, advance_checking hstill, hscan]
  dsimp only
  rw [drive]
  simp only [advance, hholder, ne_eq, not_true_eq_false, if_false]

theorem drive_spent (hholder : shared.holder = some pass.token) (hend : number ≤ window.endHeight)
    (hblock : window.tip[number]? = some block) (htx : fanout.spender block = some tx) (calls : ℕ) :
    Reports consensus fanout window.tip number
      (drive consensus fanout (calls + 2) shared { pass with stage := .paging window number }).2 := by
  have hlt : number < window.tip.length := (List.getElem?_eq_some_iff.mp hblock).1
  rw [drive, advance_paging hstill hholder hend hlt]
  dsimp only
  rw [drive, advance_checking hstill]
  unfold scanBlock
  rw [getLast?_blockAt (blockAt_eq_some.mpr ⟨hlt, rfl⟩), hblock, Option.bind_some, htx]
  dsimp only
  refine ⟨block, tx, hblock, htx, ?_⟩
  split_ifs
  · exact congrArg Prod.snd (drive_finished _ _ _ _)
  · exact congrArg Prod.snd (drive_finished _ _ _ _)

end

theorem drive_end (hend : window.endHeight < number) (calls : ℕ) :
    drive consensus fanout (calls + 1) shared { pass with stage := .paging window number } =
      (shared, .finished (.pending (window.endHeight + 1) window.nextCheckSeconds)) := by
  rw [drive]
  simp only [advance, if_pos hend]
  exact drive_finished _ _ _ _

theorem drive_reports (hclean : fanout.Clean window.tip height) (hblock : window.tip[height]? = some block)
    (htx : fanout.spender block = some tx) (hend : height ≤ window.endHeight) (hstill : shared.chain = window.tip)
    (hholder : shared.holder = some pass.token) (hmature : fanout.matureHeight ≤ number) (hle : number ≤ height)
    (calls : ℕ) :
    Reports consensus fanout window.tip height
      (drive consensus fanout (calls + 3 * (height - number) + 2) shared
        { pass with stage := .paging window number }).2 := by
  have hlt : height < window.tip.length := (List.getElem?_eq_some_iff.mp hblock).1
  induction hpages : height - number generalizing shared number with
  | zero =>
    obtain rfl : number = height := by omega
    exact drive_spent hstill hholder hend hblock htx _
  | succ pages ih =>
    have hnumber : window.tip[number]?.bind fanout.spender = none := by
      rw [List.getElem?_eq_getElem (by omega), Option.bind_some]
      exact hclean number _ hmature (by omega) (List.getElem?_eq_getElem _)
    have hcalls : calls + 3 * (pages + 1) + 2 = calls + 3 * pages + 2 + 3 := by ring
    rw [hcalls, drive_clean hstill hholder (by omega) (by omega) hnumber]
    exact ih hstill hholder (by omega) (by omega) (by omega)

theorem drive_records (hclean : fanout.Clean window.tip height) (hlt : window.endHeight < window.tip.length)
    (hend : window.endHeight < height) (hstill : shared.chain = window.tip)
    (hholder : shared.holder = some pass.token) (hmature : fanout.matureHeight ≤ number)
    (hle : number ≤ window.endHeight) (calls : ℕ) :
    let recorded := (drive consensus fanout (calls + 3 * (window.endHeight - number) + 4) shared
      { pass with stage := .paging window number }).1
    recorded.chain = window.tip ∧
      recorded.progress = ⟨some (window.endHeight + 1),
        some (window.endHeight, consensus.hash (window.tip.take (window.endHeight + 1)))⟩ := by
  have hnumber : window.tip[number]?.bind fanout.spender = none := by
    rw [List.getElem?_eq_getElem (by omega), Option.bind_some]
    exact hclean number _ hmature (by omega) (List.getElem?_eq_getElem _)
  induction hpages : window.endHeight - number generalizing shared number with
  | zero =>
    obtain rfl : number = window.endHeight := by omega
    have hcalls : calls + 3 * 0 + 4 = calls + 1 + 3 := by ring
    rw [hcalls, drive_clean hstill hholder le_rfl hlt hnumber, drive_end (Nat.lt_succ_self _)]
    exact ⟨hstill, rfl⟩
  | succ pages ih =>
    have hcalls : calls + 3 * (pages + 1) + 4 = calls + 3 * pages + 4 + 3 := by ring
    rw [hcalls, drive_clean hstill hholder (by omega) (by omega) hnumber]
    refine ih hstill hholder (by omega) (by omega) ?_ (by omega)
    rw [List.getElem?_eq_getElem (by omega), Option.bind_some]
    exact hclean _ _ (by omega) (by omega) (List.getElem?_eq_getElem _)

end Still

theorem drive_viewing {shared : Shared H} {pass : Pass H} (hmature : fanout.matureHeight ≤ tipHeight shared.chain)
    (hresume : resumeHeight consensus fanout pass.progress shared.chain shared.chain = some next) (calls : ℕ) :
    drive consensus fanout (calls + 2) shared { pass with stage := .viewing } =
      drive consensus fanout calls shared
        { pass with
          stage := .paging ⟨shared.chain, next, min (tipHeight shared.chain) (next + (pass.budget - 1))⟩ next } := by
  rw [drive]
  simp only [advance, if_neg (Nat.not_lt.mpr hmature)]
  rw [drive]
  simp only [advance, hresume]

def World.resume (consensus : Consensus H) (fanout : Fanout) (w : World H) : Option ℕ :=
  resumeHeight consensus fanout w.progress w.chain w.chain

theorem soloPass_reports_or_advances {budget : ℕ} (hresume : w.resume consensus fanout = some next)
    (hmature : fanout.matureHeight ≤ next) (hle : next ≤ height) (hclean : fanout.Clean w.chain height)
    (hblock : w.chain[height]? = some block) (htx : fanout.spender block = some tx) (hbudget : 1 ≤ budget) :
    Reports consensus fanout w.chain height (w.soloPass consensus fanout budget).2 ∨
      (w.soloPass consensus fanout budget).1.chain = w.chain ∧
        ∃ next', (w.soloPass consensus fanout budget).1.resume consensus fanout = some next' ∧
          next < next' ∧ next' ≤ height := by
  have hlt : height < w.chain.length := (List.getElem?_eq_some_iff.mp hblock).1
  have htip : tipHeight w.chain = w.chain.length - 1 := rfl
  obtain ⟨window, hwindow⟩ : ∃ window : Window,
      window = ⟨w.chain, next, min (tipHeight w.chain) (next + (budget - 1))⟩ := ⟨_, rfl⟩
  have hwtip : window.tip = w.chain := by rw [hwindow]
  have hend : window.endHeight = min (tipHeight w.chain) (next + (budget - 1)) := by rw [hwindow]
  have hdrive : drive consensus fanout (3 * budget + 3) (w.claim budget).toShared
      ⟨w.nextToken, budget, w.progress, .viewing⟩ =
      drive consensus fanout (3 * budget + 1) (w.claim budget).toShared
        ⟨w.nextToken, budget, w.progress, .paging window next⟩ := by
    rw [hwindow]
    exact @drive_viewing _ consensus fanout next _ (w.claim budget).toShared
      ⟨w.nextToken, budget, w.progress, .viewing⟩ (show fanout.matureHeight ≤ tipHeight w.chain by omega) hresume _
  have hstill : (w.claim budget).chain = window.tip := hwtip.symm
  rw [← hwtip] at hclean hblock
  simp only [World.soloPass, hdrive]
  by_cases hreached : height ≤ window.endHeight
  · left
    have hcalls : 3 * budget + 1 = 3 * budget + 1 - (3 * (height - next) + 2) + 3 * (height - next) + 2 := by omega
    rw [hcalls, ← hwtip]
    exact @drive_reports _ consensus fanout _ _ _ _ (w.claim budget).toShared
      ⟨w.nextToken, budget, w.progress, .viewing⟩ window next hclean hblock htx hreached hstill rfl hmature hle _
  · right
    have hcalls : 3 * budget + 1 = 3 * budget + 1 - (3 * (window.endHeight - next) + 4) +
        3 * (window.endHeight - next) + 4 := by omega
    obtain ⟨hchain, hprogress⟩ := @drive_records _ consensus fanout height _ (w.claim budget).toShared
      ⟨w.nextToken, budget, w.progress, .viewing⟩ window next hclean (by rw [hwtip]; omega) (by omega) hstill rfl
      hmature (by omega) (3 * budget + 1 - (3 * (window.endHeight - next) + 4))
    rw [← hcalls] at hchain hprogress
    rw [hwtip] at hchain hprogress
    refine ⟨hchain, window.endHeight + 1, ?_, by omega, by omega⟩
    unfold World.resume
    dsimp only
    rw [hchain, hprogress]
    have hpage : blockAt w.chain window.endHeight = some (w.chain.take (window.endHeight + 1)) :=
      blockAt_eq_some.mpr ⟨by omega, rfl⟩
    unfold resumeHeight
    dsimp only
    rw [if_neg (by omega), hpage, Option.map_some, if_pos rfl, Option.getD_some, max_eq_left (by omega)]

theorem soloPasses_report (budgets : ℕ → ℕ) (hbudgets : ∀ i, 1 ≤ budgets i)
    (hresume : w.resume consensus fanout = some next) (hmature : fanout.matureHeight ≤ next) (hle : next ≤ height)
    (hclean : fanout.Clean w.chain height) (hblock : w.chain[height]? = some block)
    (htx : fanout.spender block = some tx) :
    ∃ count, Reports consensus fanout w.chain height
      ((w.soloPasses consensus fanout budgets count).soloPass consensus fanout (budgets count)).2 := by
  induction hdistance : height - next using Nat.strong_induction_on generalizing w next budgets with
  | _ distance ih =>
    subst hdistance
    rcases soloPass_reports_or_advances hresume hmature hle hclean hblock htx (hbudgets 0) with
      hreports | ⟨hchain, next', hresume', hlt, hle'⟩
    · exact ⟨0, hreports⟩
    · obtain ⟨count, hcount⟩ := ih (height - next') (by omega) (fun i => budgets (i + 1)) (fun i => hbudgets (i + 1))
        hresume' (by omega) hle' (hchain ▸ hclean) (hchain ▸ hblock) rfl
      exact ⟨count + 1, hchain ▸ hcount⟩

theorem Inv.exists_resume (h : Inv consensus fanout w) (hchain : w.chain ≠ []) :
    ∃ next, w.resume consensus fanout = some next ∧ fanout.matureHeight ≤ next ∧ fanout.Clean w.chain next := by
  have hlength := List.length_pos_of_ne_nil hchain
  have hsome : ∃ next, resumeHeight consensus fanout w.progress w.chain w.chain = some next := by
    unfold resumeHeight
    dsimp only
    split
    · exact ⟨_, rfl⟩
    · next height hash _ =>
        split_ifs with habove
        · exact ⟨_, rfl⟩
        · unfold tipHeight at habove
          rw [blockAt_eq_some.mpr ⟨(show height < w.chain.length by omega), rfl⟩]
          exact ⟨_, rfl⟩
  obtain ⟨next, hnext⟩ := hsome
  exact ⟨next, hnext, resumeHeight_clean h.progress hnext⟩

theorem drive_run (calls : ℕ) {pass : Pass H} (hpass : w.passes pass.token = some pass) :
    Relation.ReflTransGen (Step consensus fanout) w
      { w with
        toShared := (drive consensus fanout calls w.toShared pass).1,
        passes := Function.update w.passes pass.token
          (some { pass with stage := (drive consensus fanout calls w.toShared pass).2 }) } := by
  induction calls generalizing w pass with
  | zero =>
    rw [drive, ← hpass, Function.update_eq_self]
  | succ calls ih =>
    refine .head (.advance w pass hpass) ?_
    have hnext := @ih (w.advance consensus fanout pass)
      { pass with stage := (advance consensus fanout w.toShared pass).2 } (Function.update_self ..)
    simpa only [World.advance, Function.update_idem, drive] using hnext

theorem soloPass_run (w : World H) {budget : ℕ} (hbudget : 1 ≤ budget ∧ budget ≤ 256) :
    Relation.ReflTransGen (Step consensus fanout) w (w.soloPass consensus fanout budget).1 :=
  .head (.claim w budget hbudget) (drive_run (3 * budget + 3) (Function.update_self ..))

theorem soloPasses_run (w : World H) {budgets : ℕ → ℕ} (hbudgets : ∀ i, 1 ≤ budgets i ∧ budgets i ≤ 256) (count : ℕ) :
    Relation.ReflTransGen (Step consensus fanout) w (w.soloPasses consensus fanout budgets count) := by
  induction count generalizing w budgets with
  | zero => exact .refl
  | succ count ih => exact (soloPass_run w (hbudgets 0)).trans (ih _ fun i => hbudgets (i + 1))

/-- Over any run of passes: when the persisted anchor is on the active chain, no block of that chain from the
maturity height to below the persisted height spends the output; and from there on, passes over a chain that
holds still come, whatever their budgets, to report a spender no higher than any the chain has. -/
theorem scan_never_skips {chain : Chain} {w : World H}
    (hrun : Relation.ReflTransGen (Step consensus fanout) (World.start chain) w) :
    (∀ height page, blockAt w.chain height = some page →
      w.progress.scanAnchor = some (height, consensus.hash page) →
        ∃ next, w.progress.scanNextHeight = some next ∧ ∀ i block, fanout.matureHeight ≤ i → i ≤ next - 1 →
          w.chain[i]? = some block → fanout.spender block = none) ∧
    ∀ height block, fanout.matureHeight ≤ height → w.chain[height]? = some block →
      (fanout.spender block).isSome = true → ∀ budgets : ℕ → ℕ, (∀ i, 1 ≤ budgets i ∧ budgets i ≤ 256) →
        ∃ count first, fanout.matureHeight ≤ first ∧ first ≤ height ∧
          Relation.ReflTransGen (Step consensus fanout) w (w.soloPasses consensus fanout budgets count) ∧
          Reports consensus fanout w.chain first
            ((w.soloPasses consensus fanout budgets count).soloPass consensus fanout (budgets count)).2 := by
  have hinv := inv_run hrun
  constructor
  · intro height page hpage hanchor
    obtain ⟨hnext, hclean⟩ := hinv.progress.clean hpage hanchor
    exact ⟨height + 1, hnext, fun i block hmature hle => hclean i block hmature (by omega)⟩
  · intro height block hmature hblock hspent budgets hbudgets
    obtain ⟨first, hfirst, hle, hclean, block', tx, hblock', htx⟩ := exists_first_spender hmature hblock hspent
    have hchain : w.chain ≠ [] := by
      intro hnil
      rw [hnil] at hblock
      cases hblock
    obtain ⟨next, hresume, hnext, hcleanNext⟩ := hinv.exists_resume hchain
    -- the chain is clean below the height to resume from, so the spender is not below it
    have hbelow : next ≤ first := by
      by_contra habove
      have hnone := hcleanNext first block' hfirst (by omega) hblock'
      rw [htx] at hnone
      cases hnone
    obtain ⟨count, hreports⟩ := soloPasses_report budgets (fun i => (hbudgets i).1) hresume hnext hbelow hclean hblock' htx
    exact ⟨count, first, hfirst, hle, soloPasses_run w hbudgets count, hreports⟩

end Safety
/-- A consensus in which a block's hash is the chain that ends in it. -/
def sampleConsensus : Consensus Chain := ⟨id, Function.injective_id, List.length⟩

def sampleFanout : Fanout := ⟨"coinbase", 0, "fanout", 1⟩

def sampleChain : Chain := [[], [], [⟨"fanout", [("coinbase", 0)]⟩]]

/-- The state after one pass of one block, which has recorded the second block. -/
def sampleScanned : World Chain := ((World.start sampleChain).soloPass sampleConsensus sampleFanout 1).1

theorem scan_never_skips_sample :
    (∃ next, sampleScanned.progress.scanNextHeight = some next ∧ ∀ i block, 1 ≤ i → i ≤ next - 1 →
      sampleScanned.chain[i]? = some block → sampleFanout.spender block = none) ∧
    ∃ count first, 1 ≤ first ∧ first ≤ 2 ∧
      Relation.ReflTransGen (Step sampleConsensus sampleFanout) sampleScanned
        (sampleScanned.soloPasses sampleConsensus sampleFanout (fun _ => 1) count) ∧
      Reports sampleConsensus sampleFanout sampleScanned.chain first
        ((sampleScanned.soloPasses sampleConsensus sampleFanout (fun _ => 1) count).soloPass sampleConsensus
          sampleFanout 1).2 := by
  have hscan := scan_never_skips (soloPass_run (World.start sampleChain) (show 1 ≤ 1 ∧ 1 ≤ 256 by decide) :
    Relation.ReflTransGen (Step sampleConsensus sampleFanout) _ sampleScanned)
  exact ⟨hscan.1 1 [[], []] rfl rfl,
    hscan.2 2 [⟨"fanout", [("coinbase", 0)]⟩] (by decide) rfl (by decide) (fun _ => 1) (by simp)⟩

end QbitPrism.SpendScan
