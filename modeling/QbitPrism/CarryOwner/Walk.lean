import Mathlib
import QbitPrism.Lib.Checked

/-!
# Walking the active chain

A transfer's scan reads the active chain block by block from a node whose chain may be
reorganised between any two calls. The walk reads again from below a block that does not
name the one under it, and ends on blocks that link up to the tip it last read.
-/
namespace QbitPrism.CarryOwner.Transfer
open Std Checked List

structure CoinbaseView where
  blockHash : String
  scriptSig : List UInt8
  outputScripts : List (List UInt8)

/-- How the scan recognises the pool's blocks: a coinbase tag in the scriptSig, or a
pool-fee script among the outputs. -/
structure PoolRecognizer where
  tags : List (List UInt8)
  feeScripts : List (List UInt8)

def PoolRecognizer.isPoolBlock (recognizer : PoolRecognizer) (coinbase : CoinbaseView) : Bool :=
  recognizer.tags.any (fun tag => coinbase.scriptSig.tails.any (fun rest => tag.isPrefixOf rest)) ||
    recognizer.feeScripts.any (fun fee => coinbase.outputScripts.any (fun script => script == fee))

structure ChainAnswers where
  tip : Except String (ℕ × String)
  blockHash : ℕ → Except String String
  linkedCoinbase : ℕ → Except String (CoinbaseView × Option String)

/-- The node's answer may change from one call to the next: call `n` is answered by `chain n`. -/
abbrev ChainSource := ℕ → ChainAnswers

/-- A computation that counts the calls it makes. -/
abbrev Calls (α : Type) := StateT ℕ (Except String) α

namespace Calls
variable {α β : Type}

def ask (chain : ChainSource) (question : ChainAnswers → Except String α) : Calls α := fun calls =>
  (question (chain calls)).map fun answer => (answer, calls + 1)

theorem ask_eq_ok {chain : ChainSource} {question : ChainAnswers → Except String α} {calls : ℕ} {result : α × ℕ} :
    ask chain question calls = .ok result ↔
      question (chain calls) = .ok result.1 ∧ result.2 = calls + 1 := by
  obtain ⟨answer, calls'⟩ := result
  unfold ask
  cases question (chain calls) <;> simp [Except.map, eq_comm]

theorem bind_eq_ok {x : Calls α} {f : α → Calls β} {calls : ℕ} {result : β × ℕ} :
    (x >>= f) calls = .ok result ↔
      ∃ a calls', x calls = .ok (a, calls') ∧ f a calls' = .ok result := by
  change (x calls >>= fun r => f r.1 r.2) = _ ↔ _
  rw [Checked.bind_eq_ok, Prod.exists]

theorem pure_eq_ok {a : α} {calls : ℕ} {result : α × ℕ} :
    (pure a : Calls α) calls = .ok result ↔ result = (a, calls) := by
  change Except.ok (a, calls) = _ ↔ _
  rw [Except.ok.injEq, eq_comm]

end Calls

/-- One block a walk read: its hash, its parent's when known, and whether it is a pool block. -/
structure WalkedBlock where
  hash : String
  parent : Option String
  pool : Bool
  deriving DecidableEq

/-- A block does not name the block read right below it as its parent. -/
def isLinkBreak (fromHeight : ℕ) (pair : (ℕ × WalkedBlock) × (ℕ × WalkedBlock)) : Bool :=
  fromHeight ≤ pair.1.1 && pair.2.1 == pair.1.1 + 1 &&
    pair.2.2.parent.any (fun parent => parent != pair.1.2.hash)

/-- The lowest height above `fromHeight` whose block does not name the block read below it. -/
def firstLinkBreak (blocks : TreeMap ℕ WalkedBlock) (fromHeight : ℕ) : Option ℕ :=
  ((blocks.toList.zip (blocks.toList.drop 1)).find? (isLinkBreak fromHeight)).map (fun pair => pair.2.1)

/-- The blocks one walk of the active chain read, by height. -/
structure ChainWalk where
  tipHeight : ℕ
  tipHash : String
  blocks : TreeMap ℕ WalkedBlock

structure WalkLoop where
  tipHeight : ℕ
  tipHash : String
  blocks : TreeMap ℕ WalkedBlock
  next : ℕ

section Code
variable (chain : ChainSource) (recognizer : PoolRecognizer) (fromHeight : ℕ)

def readBlock (height : ℕ) : Calls (ℕ × WalkedBlock) := do
  let (coinbase, parent) ← Calls.ask chain (fun answers => answers.linkedCoinbase height)
  pure (height, { hash := coinbase.blockHash, parent, pool := recognizer.isPoolBlock coinbase })

/-- Read the heights `first..=last`, each by a call of its own. -/
def readBlocks (first last : ℕ) : Calls (List (ℕ × WalkedBlock)) :=
  (List.range' first (last + 1 - first)).mapM (readBlock chain recognizer)

/-- The walked block at `height`, if any, is still the active one. -/
def stillActive (blocks : TreeMap ℕ WalkedBlock) (height : ℕ) : Calls Bool :=
  match blocks[height]? with
  | some block => do
    let hash ← Calls.ask chain (fun answers => answers.blockHash height)
    pure (block.hash == hash)
  | none => pure false

/-- The highest walked block at or below `height` that is still active. -/
def highestActive (blocks : TreeMap ℕ WalkedBlock) : ℕ → Calls (Option ℕ)
  | 0 =>
    if fromHeight ≤ 0 then do
      let active ← stillActive chain blocks 0
      if active then pure (some 0) else pure none
    else pure none
  | height + 1 =>
    if fromHeight ≤ height + 1 then do
      let active ← stillActive chain blocks (height + 1)
      if active then pure (some (height + 1)) else highestActive blocks height
    else pure none

def extendBlocks (state : WalkLoop) : Calls (TreeMap ℕ WalkedBlock) :=
  if state.next ≤ state.tipHeight then do
    let read ← readBlocks chain recognizer state.next state.tipHeight
    pure (state.blocks.insertMany read)
  else pure state.blocks

def topIsTip (state : WalkLoop) (blocks : TreeMap ℕ WalkedBlock) : Bool :=
  decide (state.tipHeight < fromHeight) ||
    (blocks[state.tipHeight]?).any (fun block => block.hash == state.tipHash)

def brokenAt (state : WalkLoop) (blocks : TreeMap ℕ WalkedBlock) : Option ℕ :=
  (firstLinkBreak blocks fromHeight).or
    -- A top block other than the tip read is a break at the top.
    (if topIsTip fromHeight state blocks then none else some state.tipHeight)

/-- One round of the loop: the variables of the next round, or the finished walk. -/
def walkRound (state : WalkLoop) : Calls (WalkLoop ⊕ ChainWalk) := do
  let blocks ← extendBlocks chain recognizer state
  match brokenAt fromHeight state blocks with
  | some broken =>
    -- Either side of the break may be stale: read both again.
    let again := max (broken - 1) fromHeight
    let (tipHeight, tipHash) ← Calls.ask chain ChainAnswers.tip
    pure (.inl { tipHeight, tipHash, next := again,
                 blocks := blocks.filter (fun height _ => height < again) })
  | none =>
    let (nowHeight, nowHash) ← Calls.ask chain ChainAnswers.tip
    if nowHash = state.tipHash then
      pure (.inr { tipHeight := state.tipHeight, tipHash := state.tipHash, blocks })
    else
      let keep ← highestActive chain fromHeight blocks (min state.tipHeight nowHeight)
      pure (.inl { tipHeight := nowHeight, tipHash := nowHash,
                   next := keep.elim fromHeight (fun keep => keep + 1),
                   blocks := blocks.filter (fun height _ => keep.any (fun keep => height ≤ keep)) })

/-- At most `rounds` rounds of the loop. The finished walk comes with the variables its last
round began with. -/
def walkRounds : ℕ → WalkLoop → Calls (WalkLoop × ChainWalk)
  | 0, _ => fun _ => .error "the walk did not end"
  | rounds + 1, state => do
    let outcome ← walkRound chain recognizer fromHeight state
    match outcome with
    | .inl state' => walkRounds rounds state'
    | .inr walk => pure (state, walk)

def walkRun (rounds : ℕ) : Calls (WalkLoop × ChainWalk) := do
  let (tipHeight, tipHash) ← Calls.ask chain ChainAnswers.tip
  walkRounds chain recognizer fromHeight rounds
    { tipHeight, tipHash, blocks := ∅, next := fromHeight }

def walkChain (rounds : ℕ) : Calls ChainWalk := do
  let (_, walk) ← walkRun chain recognizer fromHeight rounds
  pure walk

end Code

/-- A block hash determines its parent and its height, whenever the node is asked. -/
structure Consistent (parent : String → String) (height : String → ℕ) (chain : ChainSource) : Prop where
  tip : ∀ n tipHeight hash, (chain n).tip = .ok (tipHeight, hash) → height hash = tipHeight
  blockHash : ∀ n h hash, (chain n).blockHash h = .ok hash → height hash = h
  linked : ∀ n h coinbase named, (chain n).linkedCoinbase h = .ok (coinbase, named) →
    height coinbase.blockHash = h ∧ named = some (parent coinbase.blockHash)

/-- The walked blocks are the tip's ancestry from `fromHeight` on, and nothing else. -/
structure TipAncestry (parent : String → String) (fromHeight : ℕ) (walk : ChainWalk) : Prop where
  heights : ∀ h, h ∈ walk.blocks ↔ fromHeight ≤ h ∧ h ≤ walk.tipHeight
  linked : ∀ (h : ℕ) (low high : WalkedBlock), walk.blocks[h]? = some low → walk.blocks[h + 1]? = some high →
    high.parent = some low.hash
  top : ∀ block : WalkedBlock, walk.blocks[walk.tipHeight]? = some block → block.hash = walk.tipHash
  ancestry : ∀ (h : ℕ) (block : WalkedBlock), walk.blocks[h]? = some block →
    block.hash = parent^[walk.tipHeight - h] walk.tipHash

/-- The blocks read so far: one at each height from `fromHeight` up to `bound`, each with its
own parent. -/
structure Covers (parent : String → String) (fromHeight bound : ℕ)
    (blocks : TreeMap ℕ WalkedBlock) : Prop where
  heights : ∀ h, h ∈ blocks ↔ fromHeight ≤ h ∧ h < bound
  parents : ∀ (h : ℕ) (block : WalkedBlock), blocks[h]? = some block → block.parent = some (parent block.hash)

section Blocks
variable {parent : String → String} {fromHeight bound : ℕ} {blocks : TreeMap ℕ WalkedBlock}

theorem Covers.empty : Covers parent fromHeight fromHeight ∅ where
  heights h := by
    simp only [TreeMap.not_mem_emptyc, false_iff]
    omega
  parents h block hblock := by simp at hblock

theorem Covers.filter {cut : ℕ} {keep : ℕ → Bool} (h : Covers parent fromHeight bound blocks)
    (hcut : cut ≤ bound) (hkeep : ∀ height, fromHeight ≤ height → (keep height = true ↔ height < cut)) :
    Covers parent fromHeight cut (blocks.filter fun height _ => keep height) where
  heights height := by
    rw [TreeMap.mem_iff_isSome_getElem?, TreeMap.getElem?_filter', Option.isSome_filter]
    have hmem := h.heights height
    rw [TreeMap.mem_iff_isSome_getElem?] at hmem
    cases hblock : blocks[height]? with
    | none =>
      rw [hblock] at hmem
      simp only [Option.isSome_none, Bool.false_eq_true, false_iff] at hmem
      simp only [Option.any_none, Bool.false_eq_true, false_iff]
      omega
    | some block =>
      rw [hblock] at hmem
      simp only [Option.isSome_some, true_iff] at hmem
      rw [Option.any_some, hkeep height hmem.1]
      omega
  parents height block hblock := by
    rw [TreeMap.getElem?_filter', Option.filter_eq_some_iff] at hblock
    exact h.parents height block hblock.1

theorem Covers.insertMany {last : ℕ} {read : List (ℕ × WalkedBlock)} (h : Covers parent fromHeight bound blocks)
    (hbound : fromHeight ≤ bound) (hheights : read.map Prod.fst = List.range' bound (last + 1 - bound))
    (hparents : ∀ entry ∈ read, entry.2.parent = some (parent entry.2.hash)) :
    Covers parent fromHeight (max bound (last + 1)) (blocks.insertMany read) where
  heights height := by
    rw [TreeMap.mem_insertMany_list, h.heights, contains_iff_mem, hheights, mem_range'_1]
    omega
  parents height block hblock := by
    rw [TreeMap.getElem?_insertMany_list, Option.or_eq_some_iff] at hblock
    rcases hblock with hread | ⟨-, hold⟩
    · rw [List.findSomeRev?_eq_findSome?_reverse] at hread
      obtain ⟨⟨other, found⟩, hentry, hsome⟩ := exists_of_findSome?_eq_some hread
      dsimp only at hsome
      split_ifs at hsome with heq
      cases hsome
      exact hparents _ (mem_reverse.mp hentry)
    · exact h.parents height block hold

theorem mem_zip_tail_of_neighbours {entries : List (ℕ × WalkedBlock)} {h : ℕ} {low high : WalkedBlock}
    (hsorted : entries.Pairwise fun a b => a.1 < b.1) (hlow : (h, low) ∈ entries)
    (hhigh : (h + 1, high) ∈ entries) : ((h, low), (h + 1, high)) ∈ entries.zip (entries.drop 1) := by
  induction entries with
  | nil => exact absurd hlow not_mem_nil
  | cons first rest ih =>
    obtain ⟨hfirst, hrest⟩ := pairwise_cons.mp hsorted
    have habove : (h + 1, high) ∈ rest := by
      rcases mem_cons.mp hhigh with rfl | hmem
      · -- Nothing stands below the first entry.
        rcases mem_cons.mp hlow with heq | hmem
        · cases heq
        · exact absurd (hfirst _ hmem) (by simp)
      · exact hmem
    cases rest with
    | nil => exact absurd habove not_mem_nil
    | cons second rest =>
      simp only [drop_succ_cons, drop_zero, zip_cons_cons, mem_cons]
      rcases mem_cons.mp hlow with rfl | hbelow
      · left
        rcases mem_cons.mp habove with rfl | hlater
        · rfl
        · have hsecond := (pairwise_cons.mp hrest).1 _ hlater
          have hnext := hfirst second mem_cons_self
          simp only at hsecond hnext
          omega
      · right
        exact ih hrest hbelow habove

theorem mem_of_firstLinkBreak {broken : ℕ} (h : firstLinkBreak blocks fromHeight = some broken) :
    broken ∈ blocks := by
  obtain ⟨pair, hfind, rfl⟩ := Option.map_eq_some_iff.mp h
  have hmem : (pair.2.1, pair.2.2) ∈ blocks.toList :=
    mem_of_mem_drop (of_mem_zip (mem_of_find?_eq_some hfind)).2
  rw [TreeMap.mem_iff_isSome_getElem?, TreeMap.mem_toList_iff_getElem?_eq_some.mp hmem]
  rfl

theorem linked_of_firstLinkBreak_none (h : firstLinkBreak blocks fromHeight = none) {height : ℕ}
    (hheight : fromHeight ≤ height) {low high : WalkedBlock} (hlow : blocks[height]? = some low)
    (hhigh : blocks[height + 1]? = some high) {named : String} (hnamed : high.parent = some named) :
    named = low.hash := by
  have hsorted : blocks.toList.Pairwise fun a b => a.1 < b.1 :=
    TreeMap.ordered_keys_toList.imp fun hlt => Nat.compare_eq_lt.mp hlt
  have hpair := mem_zip_tail_of_neighbours hsorted
    (TreeMap.mem_toList_iff_getElem?_eq_some.mpr hlow)
    (TreeMap.mem_toList_iff_getElem?_eq_some.mpr hhigh)
  have hnone := List.find?_eq_none.mp (Option.map_eq_none_iff.mp h) _ hpair
  simpa [isLinkBreak, hheight, hnamed] using hnone

end Blocks

section Rounds
variable {chain : ChainSource} {recognizer : PoolRecognizer} {parent : String → String}
  {height : String → ℕ} {fromHeight : ℕ}

theorem mapM_readBlock_eq_ok (hchain : Consistent parent height chain) {heights : List ℕ}
    {read : List (ℕ × WalkedBlock)} {calls calls' : ℕ}
    (h : heights.mapM (readBlock chain recognizer) calls = .ok (read, calls')) :
    read.map Prod.fst = heights ∧ ∀ entry ∈ read, entry.2.parent = some (parent entry.2.hash) := by
  induction heights generalizing read calls with
  | nil =>
    rw [mapM_nil, Calls.pure_eq_ok] at h
    cases h
    simp
  | cons first rest ih =>
    simp only [mapM_cons, readBlock, Calls.bind_eq_ok, Calls.pure_eq_ok, Calls.ask_eq_ok] at h
    obtain ⟨_, _, ⟨⟨coinbase, named⟩, _, ⟨hanswer, -⟩, heq⟩, later, _, hlater, hread⟩ := h
    cases heq
    cases hread
    obtain ⟨hheights, hparents⟩ := ih hlater
    refine ⟨by rw [map_cons, hheights], ?_⟩
    intro entry hentry
    rcases mem_cons.mp hentry with rfl | hentry
    · exact (hchain.linked _ _ _ _ hanswer).2
    · exact hparents entry hentry

/-- What a round's loop variables keep: one block at each height below `next`. -/
structure WalkLoop.Sound (parent : String → String) (fromHeight : ℕ) (state : WalkLoop) : Prop where
  above : fromHeight ≤ state.next
  covers : Covers parent fromHeight state.next state.blocks

variable {state : WalkLoop} {blocks : TreeMap ℕ WalkedBlock} {calls calls' : ℕ}

theorem WalkLoop.Sound.extendBlocks (hstate : state.Sound parent fromHeight) (hchain : Consistent parent height chain)
    (h : extendBlocks chain recognizer state calls = .ok (blocks, calls')) :
    Covers parent fromHeight (max state.next (state.tipHeight + 1)) blocks := by
  unfold Transfer.extendBlocks at h
  split_ifs at h with hnext
  · rw [Calls.bind_eq_ok] at h
    obtain ⟨read, _, hread, hpure⟩ := h
    rw [Calls.pure_eq_ok] at hpure
    cases hpure
    obtain ⟨hheights, hparents⟩ := mapM_readBlock_eq_ok hchain hread
    exact hstate.covers.insertMany hstate.above hheights hparents
  · rw [Calls.pure_eq_ok] at h
    cases h
    rw [max_eq_left (by omega)]
    exact hstate.covers

theorem mem_of_stillActive {h : ℕ} (hactive : stillActive chain blocks h calls = .ok (true, calls')) :
    h ∈ blocks := by
  rw [TreeMap.mem_iff_isSome_getElem?]
  unfold stillActive at hactive
  cases hblock : blocks[h]? with
  | some block => rfl
  | none =>
    rw [hblock] at hactive
    cases Calls.pure_eq_ok.mp hactive

theorem mem_of_highestActive {start keep : ℕ}
    (h : highestActive chain fromHeight blocks start calls = .ok (some keep, calls')) :
    keep ∈ blocks := by
  induction start generalizing calls with
  | zero =>
    unfold highestActive at h
    split_ifs at h with hfrom
    · obtain ⟨active, _, hactive, h⟩ := Calls.bind_eq_ok.mp h
      cases active with
      | false => cases Calls.pure_eq_ok.mp h
      | true =>
        cases Calls.pure_eq_ok.mp h
        exact mem_of_stillActive hactive
    · cases Calls.pure_eq_ok.mp h
  | succ start ih =>
    unfold highestActive at h
    split_ifs at h with hfrom
    · obtain ⟨active, _, hactive, h⟩ := Calls.bind_eq_ok.mp h
      cases active with
      | false => exact ih h
      | true =>
        cases Calls.pure_eq_ok.mp h
        exact mem_of_stillActive hactive
    · cases Calls.pure_eq_ok.mp h

theorem brokenAt_lt {broken bound : ℕ} (hcovers : Covers parent fromHeight bound blocks)
    (htop : state.tipHeight < bound) (h : brokenAt fromHeight state blocks = some broken) :
    broken < bound := by
  rcases Option.or_eq_some_iff.mp h with hbreak | ⟨-, htip⟩
  · exact ((hcovers.heights _).mp (mem_of_firstLinkBreak hbreak)).2
  · split_ifs at htip
    cases htip
    exact htop

section
variable (hchain : Consistent parent height chain)
include hchain

theorem walkRound_keeps {state' : WalkLoop} (hstate : state.Sound parent fromHeight)
    (h : walkRound chain recognizer fromHeight state calls = .ok (.inl state', calls')) :
    state'.Sound parent fromHeight := by
  obtain ⟨blocks, _, hextend, h⟩ := Calls.bind_eq_ok.mp h
  have hcovers := hstate.extendBlocks hchain hextend
  cases hbroken : brokenAt fromHeight state blocks with
  | some broken =>
    rw [hbroken] at h
    obtain ⟨tip, _, -, h⟩ := Calls.bind_eq_ok.mp h
    cases Calls.pure_eq_ok.mp h
    have hlt := brokenAt_lt hcovers (by omega) hbroken
    have habove := hstate.above
    have hagain : max (broken - 1) fromHeight ≤ max state.next (state.tipHeight + 1) := by omega
    exact ⟨le_max_right _ _, hcovers.filter hagain fun height _ => decide_eq_true_iff⟩
  | none =>
    rw [hbroken] at h
    obtain ⟨⟨nowHeight, nowHash⟩, _, -, h⟩ := Calls.bind_eq_ok.mp h
    dsimp only at h
    split_ifs at h with hsame
    · cases Calls.pure_eq_ok.mp h
    · obtain ⟨keep, _, hkeep, h⟩ := Calls.bind_eq_ok.mp h
      cases Calls.pure_eq_ok.mp h
      have habove := hstate.above
      cases keep with
      | none => exact ⟨le_rfl, hcovers.filter (habove.trans (le_max_left _ _)) (by simp)⟩
      | some keep =>
        have hmem := (hcovers.heights _).mp (mem_of_highestActive hkeep)
        refine ⟨hmem.1.trans (Nat.le_succ keep), hcovers.filter hmem.2 fun height _ => ?_⟩
        simp only [Option.any_some, decide_eq_true_eq, Option.elim_some]
        omega

/-- What a finished walk rests on: its blocks link up, the top one is the tip, and they reach to
whichever of the tip and the blocks kept is higher. -/
structure Finished (parent : String → String) (fromHeight : ℕ) (last : WalkLoop) (walk : ChainWalk) :
    Prop where
  tipHeight : walk.tipHeight = last.tipHeight
  above : fromHeight ≤ last.next
  covers : Covers parent fromHeight (max last.next (last.tipHeight + 1)) walk.blocks
  noBreak : firstLinkBreak walk.blocks fromHeight = none
  top : fromHeight ≤ walk.tipHeight →
    ∃ block, walk.blocks[walk.tipHeight]? = some block ∧ block.hash = walk.tipHash

theorem walkRound_finishes {walk : ChainWalk} (hstate : state.Sound parent fromHeight)
    (h : walkRound chain recognizer fromHeight state calls = .ok (.inr walk, calls')) :
    Finished parent fromHeight state walk := by
  obtain ⟨blocks, _, hextend, h⟩ := Calls.bind_eq_ok.mp h
  have hcovers := hstate.extendBlocks hchain hextend
  cases hbroken : brokenAt fromHeight state blocks with
  | some broken =>
    rw [hbroken] at h
    obtain ⟨tip, _, -, h⟩ := Calls.bind_eq_ok.mp h
    cases Calls.pure_eq_ok.mp h
  | none =>
    rw [hbroken] at h
    obtain ⟨⟨nowHeight, nowHash⟩, _, -, h⟩ := Calls.bind_eq_ok.mp h
    dsimp only at h
    split_ifs at h with hsame
    · cases Calls.pure_eq_ok.mp h
      obtain ⟨hlinks, htop⟩ := Option.or_eq_none_iff.mp hbroken
      refine ⟨rfl, hstate.above, hcovers, hlinks, fun hfrom => ?_⟩
      have htop : topIsTip fromHeight state blocks = true := by
        by_contra hnot
        simp [hnot] at htop
      simp only [topIsTip, Bool.or_eq_true, decide_eq_true_eq, Option.any_eq_true, beq_iff_eq] at htop
      exact htop.resolve_left (Nat.not_lt.mpr hfrom)
    · obtain ⟨keep, _, -, h⟩ := Calls.bind_eq_ok.mp h
      cases Calls.pure_eq_ok.mp h

theorem walkRounds_finishes {rounds : ℕ} {last : WalkLoop} {walk : ChainWalk} (hstate : state.Sound parent fromHeight)
    (h : walkRounds chain recognizer fromHeight rounds state calls = .ok ((last, walk), calls')) :
    Finished parent fromHeight last walk := by
  induction rounds generalizing state calls with
  | zero => cases h
  | succ rounds ih =>
    obtain ⟨outcome, _, hround, h⟩ := Calls.bind_eq_ok.mp h
    cases outcome with
    | inl state' => exact ih (walkRound_keeps hchain hstate hround) h
    | inr finished =>
      cases Calls.pure_eq_ok.mp h
      exact walkRound_finishes hchain hstate hround

end

theorem Finished.ancestry {last : WalkLoop} {walk : ChainWalk} (h : Finished parent fromHeight last walk)
    {depth : ℕ} (hdepth : depth ≤ walk.tipHeight) {block : WalkedBlock}
    (hblock : walk.blocks[walk.tipHeight - depth]? = some block) :
    block.hash = parent^[depth] walk.tipHash := by
  have hmem : ∀ {h : ℕ} {b : WalkedBlock}, walk.blocks[h]? = some b → h ∈ walk.blocks := by
    intro h b hb
    rw [TreeMap.mem_iff_isSome_getElem?, hb]
    rfl
  have hfrom := ((h.covers.heights _).mp (hmem hblock)).1
  induction depth generalizing block with
  | zero =>
    obtain ⟨top, htop, hhash⟩ := h.top hfrom
    cases hblock.symm.trans htop
    exact hhash
  | succ depth ih =>
    have hheight : walk.tipHeight - depth = walk.tipHeight - (depth + 1) + 1 := by omega
    have habove : walk.tipHeight - depth ∈ walk.blocks := by
      rw [h.covers.heights, ← h.tipHeight]
      omega
    obtain ⟨high, hhigh⟩ := Option.isSome_iff_exists.mp (TreeMap.mem_iff_isSome_getElem?.mp habove)
    have hhash := ih (by omega) hhigh (by omega)
    rw [Function.iterate_succ_apply', ← hhash]
    exact (linked_of_firstLinkBreak_none h.noBreak hfrom hblock (hheight ▸ hhigh)
      (h.covers.parents _ _ hhigh)).symm

end Rounds

section Samples

def activeChain (hashes : List String) : ChainAnswers where
  tip := okOr (hashes.getLast?.map fun hash => (hashes.length - 1, hash)) "no tip"
  blockHash h := okOr hashes[h]? "no such height"
  linkedCoinbase h :=
    okOr (hashes[h]?.map fun hash =>
      ({ blockHash := hash, scriptSig := [], outputScripts := [] }, some (("" :: hashes)[h]?.getD "")))
      "no such height"

/-- Every block of the chain has the height it stands at and the block before it as its parent. -/
def standsAt (parent : String → String) (height : String → ℕ) (hashes : List String) : Bool :=
  (List.range hashes.length).all fun h =>
    (hashes[h]?).all fun hash => height hash == h && parent hash == ("" :: hashes)[h]?.getD ""

theorem consistent_activeChain {parent : String → String} {height : String → ℕ}
    {hashes : ℕ → List String} (h : ∀ n, standsAt parent height (hashes n) = true) :
    Consistent parent height fun n => activeChain (hashes n) := by
  have hblock : ∀ n h' hash, (hashes n)[h']? = some hash →
      height hash = h' ∧ parent hash = ("" :: hashes n)[h']?.getD "" := by
    intro n h' hash hhash
    have hlt := (List.getElem?_eq_some_iff.mp hhash).1
    have hall := all_eq_true.mp (h n) h' (mem_range.mpr hlt)
    simpa [hhash] using hall
  refine ⟨?_, ?_, ?_⟩
  · intro n tipHeight hash htip
    simp only [activeChain, okOr_eq_ok, Option.map_eq_some_iff, Prod.mk.injEq, List.getLast?_eq_getElem?] at htip
    obtain ⟨_, hlast, rfl, rfl⟩ := htip
    exact (hblock n _ _ hlast).1
  · intro n h' hash hhash
    exact (hblock n _ _ (okOr_eq_ok.mp hhash)).1
  · intro n h' coinbase named hlinked
    simp only [activeChain, okOr_eq_ok, Option.map_eq_some_iff, Prod.mk.injEq] at hlinked
    obtain ⟨hash, hhash, rfl, rfl⟩ := hlinked
    have hstands := hblock n _ _ hhash
    exact ⟨hstands.1, congrArg some hstands.2.symm⟩

def sampleParent : String → String
  | "a1" => "a0"
  | "a2" => "a1"
  | "a3" => "a2"
  | "b3" => "a2"
  | _ => ""

def sampleHeight : String → ℕ
  | "a1" => 1
  | "a2" => 2
  | "a3" => 3
  | "b3" => 3
  | _ => 0

/-- The tip `a3` is replaced by `b3` once it was read; after the fifth call the active chain ends
in `later`. -/
def sampleHashes (later : List String) (calls : ℕ) : List String :=
  if calls = 0 then ["a0", "a1", "a2", "a3"]
  else if calls ≤ 4 then ["a0", "a1", "a2", "b3"]
  else later

def sampleChain (later : List String) : ChainSource := fun calls => activeChain (sampleHashes later calls)

theorem consistent_sampleChain {later : List String} (h : standsAt sampleParent sampleHeight later = true) :
    Consistent sampleParent sampleHeight (sampleChain later) := by
  refine consistent_activeChain fun calls => ?_
  unfold sampleHashes
  split_ifs
  · decide
  · decide
  · exact h

def sampleRecognizer : PoolRecognizer where
  tags := []
  feeScripts := []

end Samples
end QbitPrism.CarryOwner.Transfer
