import Mathlib
import QbitPrism.Payout.Maturity

/-!
# Reorganisations

Entries mature with the tip, and the entries of disconnected blocks are reversed before they do.
Both operations treat every entry by itself, so a run over a list of entries is a run of each.
-/
namespace QbitPrism
open MachineInt Checked List

def reverseDisconnected (disconnectedBlockHashes : List String) (activeTipHeight : U64)
    (entry : PayoutMaturityEntry) : Except PrismError PayoutMaturityEntry :=
  if entry.blockHash ∈ disconnectedBlockHashes then
    if (entry.blockHeight.saturatingAdd qbitCoinbaseMaturityBlocks).val ≤ activeTipHeight.val then
      .error (.maturePayoutDisconnect entry.blockHash)
    else
      match entry.state with
      | .immature => .ok { entry with state := .reversed }
      | .mature => .error (.maturePayoutDisconnect entry.blockHash)
      | .reversed => .ok entry
  else .ok entry

def reverseDisconnectedBlocks (entries : List PayoutMaturityEntry) (disconnectedBlockHashes : List String)
    (activeTipHeight : U64) : Except PrismError (List PayoutMaturityEntry) :=
  entries.mapM (reverseDisconnected disconnectedBlockHashes activeTipHeight)

inductive ReorgOp where
  | update (activeTipHeight : U64)
  | reverse (disconnectedBlockHashes : List String) (activeTipHeight : U64)

def ReorgOp.apply (entries : List PayoutMaturityEntry) : ReorgOp → Except PrismError (List PayoutMaturityEntry)
  | .update tip => .ok (updateMaturityStates entries tip)
  | .reverse hashes tip => reverseDisconnectedBlocks entries hashes tip

def reorgRun (ops : List ReorgOp) (entries : List PayoutMaturityEntry) :
    Except PrismError (List PayoutMaturityEntry) :=
  ops.foldlM ReorgOp.apply entries

def Disconnects (ops : List ReorgOp) (blockHash : String) : Prop :=
  ∃ hashes tip, ReorgOp.reverse hashes tip ∈ ops ∧ blockHash ∈ hashes

def ReorgOp.applyEntry (entry : PayoutMaturityEntry) : ReorgOp → Except PrismError PayoutMaturityEntry
  | .update tip => .ok (updateMaturityState tip entry)
  | .reverse hashes tip => reverseDisconnected hashes tip entry

def entryRun (ops : List ReorgOp) (entry : PayoutMaturityEntry) : Except PrismError PayoutMaturityEntry :=
  ops.foldlM ReorgOp.applyEntry entry

variable {op : ReorgOp} {entries result : List PayoutMaturityEntry}

theorem ReorgOp.apply_eq_ok :
    op.apply entries = .ok result ↔
      List.Forall₂ (fun before after => op.applyEntry before = .ok after) entries result := by
  cases op with
  | update tip =>
    simp only [apply, applyEntry, updateMaturityStates, Except.ok.injEq]
    constructor
    · rintro rfl
      rw [List.forall₂_map_right_iff]
      exact List.forall₂_same.mpr fun _ _ => rfl
    · intro h
      rw [← List.forall₂_eq_eq_eq, List.forall₂_map_left_iff]
      exact h
  | reverse hashes tip => exact mapM_eq_ok

theorem forall₂_comp {α β γ : Type*} {R : α → β → Prop} {S : β → γ → Prop} {xs : List α} {ys : List β}
    {zs : List γ} (hR : List.Forall₂ R xs ys) (hS : List.Forall₂ S ys zs) :
    List.Forall₂ (Relation.Comp R S) xs zs := by
  induction hR generalizing zs with
  | nil =>
    cases hS
    exact .nil
  | cons hxy _ ih =>
    cases hS with
    | cons hyz hrest => exact .cons ⟨_, hxy, hyz⟩ (ih hrest)

variable {ops : List ReorgOp}

theorem reorgRun_eq_ok (h : reorgRun ops entries = .ok result) :
    List.Forall₂ (fun before after => entryRun ops before = .ok after) entries result := by
  induction ops generalizing entries with
  | nil =>
    obtain rfl := pure_eq_ok.mp h
    exact List.forall₂_same.mpr fun _ _ => rfl
  | cons op ops ih =>
    simp only [reorgRun, foldlM_cons, bind_eq_ok] at h
    obtain ⟨middle, hop, hrest⟩ := h
    refine (forall₂_comp (ReorgOp.apply_eq_ok.mp hop) (ih hrest)).imp ?_
    rintro before after ⟨between, hfirst, hlater⟩
    rw [entryRun, foldlM_cons, hfirst, ok_bind]
    exact hlater

/-- How an entry comes out of operations that all accepted it. -/
structure Evolves (ops : List ReorgOp) (before after : PayoutMaturityEntry) : Prop where
  frame : after = { before with state := after.state }
  mature : before.state = .mature → after.state = .mature
  reversed : after.state = .reversed ↔ before.state = .reversed ∨ Disconnects ops before.blockHash
  belowMaturity : ∀ hashes tip, ReorgOp.reverse hashes tip ∈ ops → before.blockHash ∈ hashes →
    tip.val < before.blockHeight.val + qbitCoinbaseMaturityBlocks.val

theorem Evolves.refl (entry : PayoutMaturityEntry) : Evolves [] entry entry where
  frame := rfl
  mature := id
  reversed := by simp [Disconnects]
  belowMaturity _ _ h := nomatch h

variable {later : List ReorgOp} {hashes : List String} {x x' y y' : PayoutMaturityEntry}

theorem disconnects_append {blockHash : String} :
    Disconnects (ops ++ later) blockHash ↔ Disconnects ops blockHash ∨ Disconnects later blockHash := by
  simp only [Disconnects, mem_append]
  constructor
  · rintro ⟨hashes, tip, hop | hop, hmem⟩
    · exact .inl ⟨hashes, tip, hop, hmem⟩
    · exact .inr ⟨hashes, tip, hop, hmem⟩
  · rintro (⟨hashes, tip, hop, hmem⟩ | ⟨hashes, tip, hop, hmem⟩)
    · exact ⟨hashes, tip, .inl hop, hmem⟩
    · exact ⟨hashes, tip, .inr hop, hmem⟩

variable {before after : PayoutMaturityEntry}

theorem Evolves.trans {middle : PayoutMaturityEntry} (hfirst : Evolves ops before middle)
    (hlast : Evolves later middle after) : Evolves (ops ++ later) before after := by
  have hhash : middle.blockHash = before.blockHash := by rw [hfirst.frame]
  have hheight : middle.blockHeight = before.blockHeight := by rw [hfirst.frame]
  refine ⟨?_, fun h => hlast.mature (hfirst.mature h), ?_, ?_⟩
  · rw [hlast.frame, hfirst.frame]
  · rw [hlast.reversed, hfirst.reversed, hhash, disconnects_append, or_assoc]
  · intro hashes tip hop hmem
    rcases mem_append.mp hop with hop | hop
    · exact hfirst.belowMaturity hashes tip hop hmem
    · rw [← hheight]
      exact hlast.belowMaturity hashes tip hop (hhash ▸ hmem)

theorem saturatingAdd_le (a b : U64) : (a.saturatingAdd b).val ≤ a.val + b.val := min_le_left _ _

theorem not_disconnects_update (tip : U64) (blockHash : String) : ¬ Disconnects [.update tip] blockHash := by
  rintro ⟨hashes, tip', hop, -⟩
  cases mem_singleton.mp hop

theorem disconnects_reverse {tip : U64} {blockHash : String} :
    Disconnects [.reverse hashes tip] blockHash ↔ blockHash ∈ hashes := by
  constructor
  · rintro ⟨hashes', tip', hop, hmem⟩
    cases mem_singleton.mp hop
    exact hmem
  · intro hmem
    exact ⟨hashes, tip, mem_singleton_self _, hmem⟩

theorem evolves_update (tip : U64) (entry : PayoutMaturityEntry) :
    Evolves [.update tip] entry (updateMaturityState tip entry) := by
  have hquiet := not_disconnects_update tip entry.blockHash
  have hbelow : ∀ hashes tip', ReorgOp.reverse hashes tip' ∈ [ReorgOp.update tip] → entry.blockHash ∈ hashes →
      tip'.val < entry.blockHeight.val + qbitCoinbaseMaturityBlocks.val :=
    fun hashes tip' hop hmem => (hquiet ⟨hashes, tip', hop, hmem⟩).elim
  unfold updateMaturityState
  split_ifs with hdue
  · exact ⟨rfl, fun _ => rfl, by simp [hquiet, hdue.1], hbelow⟩
  · exact ⟨rfl, id, by simp [hquiet], hbelow⟩

theorem evolves_reverse {tip : U64} (h : reverseDisconnected hashes tip before = .ok after) :
    Evolves [.reverse hashes tip] before after := by
  unfold reverseDisconnected at h
  split_ifs at h with hmem hdeep
  · have hbelow : ∀ hashes' tip', ReorgOp.reverse hashes' tip' ∈ [ReorgOp.reverse hashes tip] →
        before.blockHash ∈ hashes' → tip'.val < before.blockHeight.val + qbitCoinbaseMaturityBlocks.val := by
      intro hashes' tip' hop _
      cases mem_singleton.mp hop
      exact lt_of_lt_of_le (not_le.mp hdeep) (saturatingAdd_le _ _)
    cases hstate : before.state with
    | immature =>
      rw [hstate] at h
      cases h
      exact ⟨rfl, fun hmature => by simp [hstate] at hmature, by simp [disconnects_reverse, hmem], hbelow⟩
    | mature => simp [hstate] at h
    | reversed =>
      rw [hstate] at h
      cases h
      exact ⟨rfl, id, by simp [hstate], hbelow⟩
  · cases h
    refine ⟨rfl, id, by simp [disconnects_reverse, hmem], fun hashes' tip' hop hmem' => ?_⟩
    cases mem_singleton.mp hop
    exact absurd hmem' hmem

theorem ReorgOp.applyEntry_eq_ok (h : op.applyEntry before = .ok after) :
    Evolves [op] before after := by
  cases op with
  | update tip =>
    cases h
    exact evolves_update tip before
  | reverse hashes tip => exact evolves_reverse h

theorem entryRun_eq_ok (h : entryRun ops before = .ok after) : Evolves ops before after := by
  induction ops generalizing before with
  | nil =>
    obtain rfl := pure_eq_ok.mp h
    exact .refl before
  | cons op ops ih =>
    simp only [entryRun, foldlM_cons, bind_eq_ok] at h
    obtain ⟨middle, hop, hrest⟩ := h
    exact (ReorgOp.applyEntry_eq_ok hop).trans (ih hrest)

theorem ReorgOp.applyEntry_sameBlock (hhash : x.blockHash = y.blockHash) (hheight : x.blockHeight = y.blockHeight)
    (hstate : x.state = y.state) (hx : op.applyEntry x = .ok x') (hy : op.applyEntry y = .ok y') :
    x'.state = y'.state := by
  cases op with
  | update tip =>
    cases hx
    cases hy
    simp only [updateMaturityState, hheight, hstate]
    split_ifs <;> first | rfl | exact hstate
  | reverse hashes tip =>
    simp only [applyEntry, reverseDisconnected, hhash, hheight, hstate] at hx hy
    split_ifs at hx hy with hmem hdeep
    · cases hcase : y.state with
      | immature =>
        rw [hcase] at hx hy
        cases hx
        cases hy
        rfl
      | mature => simp [hcase] at hx
      | reversed =>
        rw [hcase] at hx hy
        cases hx
        cases hy
        exact hstate
    · cases hx
      cases hy
      exact hstate

theorem entryRun_sameBlock (hhash : x.blockHash = y.blockHash) (hheight : x.blockHeight = y.blockHeight)
    (hstate : x.state = y.state) (hx : entryRun ops x = .ok x') (hy : entryRun ops y = .ok y') :
    x'.state = y'.state := by
  induction ops generalizing x y with
  | nil =>
    obtain rfl := pure_eq_ok.mp hx
    obtain rfl := pure_eq_ok.mp hy
    exact hstate
  | cons op ops ih =>
    simp only [entryRun, foldlM_cons, bind_eq_ok] at hx hy
    obtain ⟨u, hxu, hux'⟩ := hx
    obtain ⟨v, hyv, hvy'⟩ := hy
    have hu := (ReorgOp.applyEntry_eq_ok hxu).frame
    have hv := (ReorgOp.applyEntry_eq_ok hyv).frame
    refine ih ?_ ?_ (ReorgOp.applyEntry_sameBlock hhash hheight hstate hxu hyv) hux' hvy'
    · rw [hu, hv]
      exact hhash
    · rw [hu, hv]
      exact hheight

theorem currentCarryForwardBalances_congr {xs ys : List PayoutMaturityEntry} (h : deltaRows xs = deltaRows ys) :
    currentCarryForwardBalances xs = currentCarryForwardBalances ys := by
  simp only [currentCarryForwardBalances, mapM_entryDelta, ok_bind, h]

theorem deltaRows_active (entries : List PayoutMaturityEntry) :
    deltaRows (entries.filter (·.state ≠ .reversed)) = deltaRows entries := by
  rw [deltaRows, deltaRows, filter_filter]
  refine congrArg (List.map _) (filter_congr fun entry _ => ?_)
  by_cases h : entry.state = .reversed <;> simp [PayoutMaturityEntry.counts, h]

theorem deltaRows_cons (entry : PayoutMaturityEntry) (entries : List PayoutMaturityEntry) :
    deltaRows (entry :: entries) = (if entry.counts then [entry.deltaRow] else []) ++ deltaRows entries := by
  by_cases h : entry.counts = true <;> simp [deltaRows, h]

theorem Evolves.counts (h : Evolves ops before after) :
    after.counts = true ↔ before.counts = true ∧ ¬ Disconnects ops before.blockHash := by
  have haccount : after.accountType = before.accountType := by rw [h.frame]
  have hreversed := h.reversed
  simp only [PayoutMaturityEntry.counts, decide_eq_true_eq, haccount, ne_eq, hreversed]
  tauto

open Classical in
theorem deltaRows_run (h : List.Forall₂ (Evolves ops) entries result) :
    deltaRows result = deltaRows (entries.filter fun entry => ¬ Disconnects ops entry.blockHash) := by
  induction h with
  | nil => rfl
  | @cons before after entries result hevolves _ ih =>
    have hrow : after.deltaRow = before.deltaRow := by rw [hevolves.frame]; rfl
    rw [deltaRows_cons, ih, hrow]
    by_cases hgone : Disconnects ops before.blockHash
    · rw [if_neg (fun hcounts => (hevolves.counts.mp hcounts).2 hgone),
        filter_cons_of_neg (by simpa using hgone), nil_append]
    · have hcounts : after.counts = before.counts := by
        rw [Bool.eq_iff_iff, hevolves.counts]
        exact and_iff_left hgone
      rw [filter_cons_of_pos (by simpa using hgone), deltaRows_cons, hcounts]

/-- Over every run: only states change, mature and reversed ones do not, an entry is reversed
exactly when its block is disconnected and then below its maturity, entries of one block stay
together, and the replay is that of the entries not reversed. It depends on the blocks that were
disconnected, and neither on their order nor on how they were grouped. -/
theorem reorgRun_consistent {ops : List ReorgOp} {entries result : List PayoutMaturityEntry}
    (h : reorgRun ops entries = .ok result) :
    List.Forall₂ (Evolves ops) entries result ∧
      (∀ x ∈ entries.zip result, ∀ y ∈ entries.zip result, x.1.blockHash = y.1.blockHash →
        x.1.blockHeight = y.1.blockHeight → x.1.state = y.1.state → x.2.state = y.2.state) ∧
      currentCarryForwardBalances result =
        currentCarryForwardBalances (result.filter (·.state ≠ .reversed)) ∧
      ∀ ops' result', reorgRun ops' entries = .ok result' →
        (∀ blockHash, Disconnects ops' blockHash ↔ Disconnects ops blockHash) →
        currentCarryForwardBalances result' = currentCarryForwardBalances result := by
  have hruns := reorgRun_eq_ok h
  have hevolves := hruns.imp fun _ _ => entryRun_eq_ok
  refine ⟨hevolves, ?_, currentCarryForwardBalances_congr (deltaRows_active result).symm, ?_⟩
  · rintro ⟨x, x'⟩ hx ⟨y, y'⟩ hy hhash hheight hstate
    exact entryRun_sameBlock hhash hheight hstate (List.forall₂_zip hruns hx) (List.forall₂_zip hruns hy)
  · intro ops' result' h' hsame
    have hevolves' := (reorgRun_eq_ok h').imp fun _ _ => entryRun_eq_ok
    refine currentCarryForwardBalances_congr ?_
    rw [deltaRows_run hevolves', deltaRows_run hevolves]
    exact congrArg deltaRows (filter_congr fun entry _ => by simp [hsame])

def sampleEntry (blockHash : String) (grossAmountSats : U64) : PayoutMaturityEntry where
  recipientId := "miner"
  orderKey := "01"
  p2mrProgramHex := "ab"
  blockHash
  blockHeight := 200
  accountType := .miner
  grossAmountSats
  priorBalanceSats := 0
  candidateBalanceSats := 0
  onchainAmountSats := 0
  settlementFeeSats := 0
  carryForwardBalanceSats := 0
  action := .accrued
  state := .immature

theorem reorgRun_consistent_two_blocks :
    ∃ result result',
      reorgRun [.reverse ["b"] 1199, .update 900, .reverse ["a"] 300, .update 1200]
        [sampleEntry "a" 5, sampleEntry "b" 7, sampleEntry "c" 9] = .ok result ∧
      reorgRun [.reverse ["a", "b"] 250] [sampleEntry "a" 5, sampleEntry "b" 7, sampleEntry "c" 9] = .ok result' ∧
      currentCarryForwardBalances result' = currentCarryForwardBalances result := by
  obtain ⟨result, hresult⟩ := exists_of_isOk (x := reorgRun
    [.reverse ["b"] 1199, .update 900, .reverse ["a"] 300, .update 1200]
    [sampleEntry "a" 5, sampleEntry "b" 7, sampleEntry "c" 9]) (by decide +kernel)
  obtain ⟨result', hresult'⟩ := exists_of_isOk (x := reorgRun [.reverse ["a", "b"] 250]
    [sampleEntry "a" 5, sampleEntry "b" 7, sampleEntry "c" 9]) (by decide +kernel)
  refine ⟨result, result', hresult, hresult', (reorgRun_consistent hresult).2.2.2 _ _ hresult' fun blockHash => ?_⟩
  constructor
  · rintro ⟨hashes, tip, hop, hmem⟩
    cases mem_singleton.mp hop
    rcases mem_pair.mp hmem with rfl | rfl
    · exact ⟨["a"], 300, by simp, by simp⟩
    · exact ⟨["b"], 1199, by simp, by simp⟩
  · rintro ⟨hashes, tip, hop, hmem⟩
    refine ⟨["a", "b"], 250, by simp, ?_⟩
    simp only [mem_cons, not_mem_nil, reduceCtorEq, ReorgOp.reverse.injEq, or_false, false_or] at hop
    rcases hop with ⟨rfl, -⟩ | ⟨rfl, -⟩
    · exact mem_cons_of_mem _ hmem
    · exact mem_cons.mpr (.inl (mem_singleton.mp hmem))

end QbitPrism
