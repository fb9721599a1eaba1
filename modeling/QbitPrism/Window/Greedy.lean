import Mathlib
import QbitPrism.Window.Rebuild

/-!
# The reward window is a greedy fold

From the newest eligible share backwards, shares count in full until the weight is used up; the
last one counts for what is left. Neither the order the shares are given in nor the way they are
sorted matters where their sequence numbers are distinct.
-/
namespace QbitPrism
open MachineInt Checked MergeByKey SortBy List

theorem countShares_zero {remaining : U128} (h : remaining.val = 0) (shares : List AcceptedShare) :
    countShares remaining shares = [] := by
  have hzero : remaining = 0 := Unsigned.ext (h.trans Unsigned.val_zero.symm)
  cases shares with
  | nil => rfl
  | cons share shares => rw [countShares, if_pos hzero]

theorem countShares_cons {remaining : U128} (h : remaining.val ≠ 0) (share : AcceptedShare)
    (shares : List AcceptedShare) :
    ∃ counted left : U128, counted.val = min share.difficulty remaining.val ∧
      left.val = remaining.val - share.difficulty ∧
      countShares remaining (share :: shares) = countShare share counted :: countShares left shares := by
  have hzero : remaining ≠ 0 := fun h0 => h (h0 ▸ Unsigned.val_zero)
  rw [countShares, if_neg hzero]
  refine ⟨_, _, ?_, ?_, rfl⟩
  · unfold AcceptedShare.difficulty
    split_ifs with hle
    · exact (min_eq_left hle).symm
    · exact (min_eq_right (by omega)).symm
  · unfold Unsigned.saturatingSub AcceptedShare.difficulty
    split_ifs with hle
    · rfl
    · show remaining.val - remaining.val = _
      omega

theorem countShares_taken (remaining : U128) (shares : List AcceptedShare) :
    List.Forall₂ (fun share counted => counted = countShare share counted.countedDifficulty)
      (Crossing.take AcceptedShare.difficulty remaining.val shares) (countShares remaining shares) := by
  induction shares generalizing remaining with
  | nil => exact .nil
  | cons share shares ih =>
    by_cases hzero : remaining.val = 0
    · rw [countShares_zero hzero, hzero, Crossing.take_zero]
      exact .nil
    · obtain ⟨counted, left, -, hleft, heq⟩ := countShares_cons hzero share shares
      rw [Crossing.take_cons hzero, heq, ← hleft]
      exact .cons rfl (ih left)

theorem countShares_sum (remaining : U128) (shares : List AcceptedShare) :
    ((countShares remaining shares).map fun c => c.countedDifficulty.val).sum =
      min remaining.val (Crossing.weight AcceptedShare.difficulty shares) := by
  induction shares generalizing remaining with
  | nil => simp [countShares]
  | cons share shares ih =>
    by_cases hzero : remaining.val = 0
    · rw [countShares_zero hzero, hzero]
      simp
    · obtain ⟨counted, left, hcounted, hleft, heq⟩ := countShares_cons hzero share shares
      have hhead : (countShare share counted).countedDifficulty.val = counted.val := rfl
      rw [heq, map_cons, sum_cons, ih left, hhead, hcounted, hleft, Crossing.weight_cons]
      omega

theorem countShares_le (remaining : U128) (shares : List AcceptedShare) :
    ∀ c ∈ countShares remaining shares, c.countedDifficulty.val ≤ c.shareDifficulty.val := by
  induction shares generalizing remaining with
  | nil => simp [countShares]
  | cons share shares ih =>
    by_cases hzero : remaining.val = 0
    · rw [countShares_zero hzero]
      simp
    · obtain ⟨counted, left, hcounted, -, heq⟩ := countShares_cons hzero share shares
      rw [heq, forall_mem_cons]
      exact ⟨hcounted.trans_le (min_le_left _ _), ih left⟩

theorem countShares_full (remaining : U128) (shares : List AcceptedShare) :
    ∀ c ∈ (countShares remaining shares).dropLast, c.countedDifficulty = c.shareDifficulty := by
  induction shares generalizing remaining with
  | nil => simp [countShares]
  | cons share shares ih =>
    by_cases hzero : remaining.val = 0
    · rw [countShares_zero hzero]
      simp
    · obtain ⟨counted, left, hcounted, hleft, heq⟩ := countShares_cons hzero share shares
      rw [heq]
      by_cases hlast : countShares left shares = []
      · rw [hlast]
        simp
      · rw [dropLast_cons_of_ne_nil hlast, forall_mem_cons]
        refine ⟨Unsigned.ext (hcounted.trans (min_eq_left ?_)), ih left⟩
        by_contra hpart
        exact hlast (countShares_zero (by omega) shares)

instance : Std.TransCmp minerKeyCmp := by
  unfold minerKeyCmp
  infer_instance

instance : Std.LawfulEqCmp minerKeyCmp where
  eq_of_compare {a b} h := by
    simp only [minerKeyCmp, compareLex_eq_eq, compareOn, Std.LawfulEqCmp.compare_eq_iff_eq] at h
    obtain ⟨hid, horder, hprogram⟩ := h
    cases a
    cases b
    cases hid
    cases horder
    cases hprogram
    rfl

theorem countedShareMerger_add {entry entry' : WeightedEntitlement} {share : CountedShare}
    (h : countedShareMerger.add entry share = .ok entry') :
    entry' = { entry with weight := entry'.weight } ∧
      entry'.weight.val = entry.weight.val + share.countedDifficulty.val := by
  simp only [countedShareMerger, bind_eq_ok, okOr_eq_ok, Unsigned.checkedAdd_eq_some, pure_eq_ok] at h
  obtain ⟨weight, hweight, rfl⟩ := h
  exact ⟨rfl, hweight⟩

theorem countedShareMerger_isOk {shares : List CountedShare}
    (hsum : (shares.map fun s => s.countedDifficulty.val).sum < 2 ^ 128) :
    ∃ weights : Std.TreeMap PayoutIdentity WeightedEntitlement minerKeyCmp,
      countedShareMerger.merge shares = .ok weights := by
  refine Merger.merge_isOk_of_lt (μ := fun e => e.weight.val) (fun _ => rfl)
    (fun _ _ _ h => (countedShareMerger_add h).2) ?_ hsum
  intro entry share hfit
  refine ⟨{ entry with weight := ⟨_, hfit⟩ }, ?_⟩
  simp only [countedShareMerger, bind_eq_ok, okOr_eq_ok, Unsigned.checkedAdd_eq_some, pure_eq_ok]
  exact ⟨⟨_, hfit⟩, rfl, rfl⟩

variable {e : WeightedEntitlement} {eligible : List AcceptedShare} {window : PrismWindow}

theorem countedShareMerger_key {shares : List CountedShare}
    {weights : Std.TreeMap PayoutIdentity WeightedEntitlement minerKeyCmp}
    (h : countedShareMerger.merge shares = .ok weights) {k : PayoutIdentity} (he : weights[k]? = some e) :
    e.toPayoutIdentity = k := by
  refine Merger.merge_invariant (fun k (e : WeightedEntitlement) => e.toPayoutIdentity = k)
    (fun _ _ => rfl) ?_ h he
  intro share _ entry entry' hadd hentry
  rw [(countedShareMerger_add hadd).1]
  exact hentry

def CountedShare.minerKey (share : CountedShare) : PayoutIdentity :=
  ⟨share.minerId, share.orderKey, share.p2mrProgramHex⟩

/-- One entitlement for every key counted, with all that was counted for it. -/
structure WindowEntitlements (counted : List CountedShare) (entitlements : List WeightedEntitlement) :
    Prop where
  nodup : (entitlements.map (·.toPayoutIdentity)).Nodup
  keys : ∀ k, k ∈ entitlements.map (·.toPayoutIdentity) ↔ ∃ c ∈ counted, c.minerKey = k
  weight : ∀ e ∈ entitlements, e.weight.val =
    ((counted.filter fun c => c.minerKey = e.toPayoutIdentity).map fun c => c.countedDifficulty.val).sum
  total : (entitlements.map fun e => e.weight.val).sum = (counted.map fun c => c.countedDifficulty.val).sum

theorem countedEntitlements_eq_ok {counted : List CountedShare} {entitlements : List WeightedEntitlement}
    (h : aggregateEntitlements counted = .ok entitlements) : WindowEntitlements counted entitlements := by
  simp only [aggregateEntitlements, bind_eq_ok, pure_eq_ok] at h
  obtain ⟨weights, hweights, rfl⟩ := h
  have hsummed : Summed countedShareMerger (fun e => e.weight.val) (fun s => s.countedDifficulty.val)
      counted weights :=
    Merger.merge_summed (fun _ => rfl) (fun _ _ _ hadd => (countedShareMerger_add hadd).2) hweights
  have hkeys := values_map_key (fun e : WeightedEntitlement => e.toPayoutIdentity)
    fun k e he => countedShareMerger_key hweights he
  refine ⟨hkeys ▸ Std.TreeMap.nodup_keys, ?_, ?_, ?_⟩
  · intro k
    rw [← values, hkeys, Std.TreeMap.mem_keys]
    exact hsummed.keys k
  · intro e he
    obtain ⟨k, hk⟩ := mem_values.mp he
    have hsum := hsummed.perKey k
    rw [hk] at hsum
    rw [countedShareMerger_key hweights hk]
    exact hsum
  · rw [map_map]
    exact hsummed.total

variable {shares : List AcceptedShare}

theorem eligibleRecords_ascending {anchor : I64} (hseq : (shares.map (·.shareSeq)).Nodup) :
    (eligibleRecords shares anchor).Pairwise fun a b => a.shareSeq.val < b.shareSeq.val := by
  have hperm := sortBy_perm shareSeqCmp (shares.filter (·.eligible anchor))
  have hnodup : ((eligibleRecords shares anchor).map (·.shareSeq)).Nodup :=
    (hperm.map _).nodup_iff.mpr (hseq.sublist (filter_sublist.map _))
  refine ((sortBy_pairwise shareSeqCmp _).and (pairwise_map.mp hnodup)).imp ?_
  rintro a b ⟨hle, hne⟩
  exact lt_of_le_of_ne (Nat.isLE_compare.mp hle) fun heq => hne (Unsigned.ext heq)

variable {foundBlock : FoundBlock}

theorem eligibleWindow_eq_ok {requested : U128} (hseq : (shares.map (·.shareSeq)).Nodup)
    (h : eligibleWindow shares foundBlock none = .ok (eligible, requested)) :
    eligible = (eligibleRecords shares foundBlock.anchorJobIssuedAtMs).reverse ∧
      requested.val = foundBlock.networkDifficulty.val * 8 ∧
      ∀ other : List AcceptedShare, other.Perm shares →
        eligibleWindow other foundBlock none = .ok (eligible, requested) := by
  simp only [eligibleWindow, bind_eq_ok, require_eq_ok, okOr_eq_ok, pure_eq_ok, Prod.mk.injEq,
    Unsigned.checkedMul_eq_some] at h
  obtain ⟨-, hdifficulty, ⟨ids, admitted⟩, hfold, requested, hrequested, rfl, rfl⟩ := h
  obtain ⟨⟨hpositive, -, hids⟩, -, hadmitted⟩ := admitShare_fold.mp hfold
  rw [nil_append] at hadmitted
  subst hadmitted
  have hascending : (eligibleRecords shares foundBlock.anchorJobIssuedAtMs).Pairwise fun a b =>
      a.shareSeq.val < b.shareSeq.val := eligibleRecords_ascending hseq
  have hperm := sortBy_perm shareSeqCmp (shares.filter (·.eligible foundBlock.anchorJobIssuedAtMs))
  have hnewest := newestFirst_eq hperm hascending
  dsimp only at hnewest ⊢
  refine ⟨hnewest, hrequested, ?_⟩
  intro other hother
  rw [hnewest]
  exact eligibleWindow_of_ascending hdifficulty hrequested
    (fun share hshare => hpositive share (hother.mem_iff.mp hshare)) ((hother.map _).nodup_iff.mpr hids)
    (hperm.trans (hother.filter _).symm) hascending

variable {cut : Option WindowCut}

theorem computePrismWindowInCut_eq_ok (h : computePrismWindowInCut shares foundBlock cut = .ok window) :
    ∃ eligible, eligibleWindow shares foundBlock cut = .ok (eligible, window.requestedWindowWeight) ∧
      window.shares = countShares window.requestedWindowWeight eligible ∧ window.shares ≠ [] ∧
      window.countedWindowWeight.val = (window.shares.map fun c => c.countedDifficulty.val).sum ∧
      WindowEntitlements window.shares window.entitlements := by
  simp only [computePrismWindowInCut, bind_eq_ok, okOr_eq_ok, pure_eq_ok, Prod.exists] at h
  obtain ⟨eligible, requested, heligible, newest, hnewest, counted, hcounted, entitlements, hentitlements,
    rfl⟩ := h
  have hsum := Unsigned.checkedSum_eq_some.mp hcounted
  rw [map_map] at hsum
  have hsome : countShares requested eligible ≠ [] := ne_nil_of_mem (mem_of_mem_head? hnewest)
  exact ⟨eligible, heligible, rfl, hsome, hsum, countedEntitlements_eq_ok hentitlements⟩

theorem newestFirst_perm (shares : List AcceptedShare) : (newestFirst shares).Perm shares := by
  unfold newestFirst
  split_ifs
  · exact reverse_perm shares
  · exact List.Perm.refl shares
  · exact sortBy_perm _ shares

theorem eligibleWindow_perm {requested : U128} (h : eligibleWindow shares foundBlock cut = .ok (eligible, requested)) :
    eligible.Perm (shares.filter (·.eligible foundBlock.anchorJobIssuedAtMs)) := by
  simp only [eligibleWindow, bind_eq_ok, pure_eq_ok, Prod.mk.injEq] at h
  obtain ⟨-, -, ⟨ids, admitted⟩, hfold, requested, -, rfl, rfl⟩ := h
  have hadmitted : admitted = shares.filter (·.eligible foundBlock.anchorJobIssuedAtMs) := by
    refine foldlM_ok_induction (fun done (state : List String × List AcceptedShare) =>
      state.2 = done.filter (·.eligible foundBlock.anchorJobIssuedAtMs)) rfl ?_ hfold
    rintro done share ⟨ids, before⟩ ⟨ids', after⟩ ih hstep
    simp only [admitShare, bind_eq_ok, require_eq_ok, exists_and_left, exists_const] at hstep
    obtain ⟨-, -, -, hstep⟩ := hstep
    rw [filter_append, filter_singleton, ← ih]
    split_ifs at hstep with heligible
    · cases hstep
      rw [decide_eq_true heligible]
      rfl
    · cases hstep
      rw [decide_eq_false heligible]
      exact (append_nil before).symm
  rw [← hadmitted]
  exact newestFirst_perm admitted

theorem computePrismWindowInCut_entitled (h : computePrismWindowInCut shares foundBlock cut = .ok window)
    (he : e ∈ window.entitlements) :
    ∃ share ∈ shares, e.toPayoutIdentity = ⟨share.minerId, share.orderKey, share.p2mrProgramHex⟩ := by
  obtain ⟨eligible, heligible, hshares, -, -, hentitlements⟩ := computePrismWindowInCut_eq_ok h
  obtain ⟨c, hc, hkey⟩ := (hentitlements.keys e.toPayoutIdentity).mp (mem_map_of_mem he)
  rw [hshares] at hc
  obtain ⟨share, htaken, hcounted⟩ := exists_of_forall₂ (countShares_taken _ _).flip hc
  have hshare := (eligibleWindow_perm heligible).mem_iff.mp ((Crossing.take_initial _ _).subset htaken)
  refine ⟨share, mem_of_mem_filter hshare, ?_⟩
  rw [← hkey, hcounted]
  rfl

/-- Shares count in full from the newest eligible one backwards until eight times the network's
difficulty is reached, each to its own miner, in whatever order they are given. -/
theorem computePrismWindow_greedy {shares : List AcceptedShare} {foundBlock : FoundBlock} {window : PrismWindow}
    (hseq : (shares.map (·.shareSeq)).Nodup) (h : computePrismWindow shares foundBlock = .ok window) :
    ∃ newest : List AcceptedShare,
      newest.Perm (shares.filter (·.eligible foundBlock.anchorJobIssuedAtMs)) ∧
      (newest.Pairwise fun a b => b.shareSeq.val < a.shareSeq.val) ∧
      (∃ taken, taken <+: newest ∧
        List.Forall₂ (fun share c => c = countShare share c.countedDifficulty) taken window.shares) ∧
      (∀ c ∈ window.shares.dropLast, c.countedDifficulty = c.shareDifficulty) ∧
      (∀ c ∈ window.shares, c.countedDifficulty.val ≤ c.shareDifficulty.val) ∧
      window.countedWindowWeight.val = min (8 * foundBlock.networkDifficulty.val)
        (newest.map fun share => share.shareDifficulty.val).sum ∧
      (window.entitlements.map fun e => e.weight.val).sum = window.countedWindowWeight.val ∧
      WindowEntitlements window.shares window.entitlements ∧
      ∀ other : List AcceptedShare, other.Perm shares → computePrismWindow other foundBlock = .ok window := by
  have hwindow := h
  rw [computePrismWindow] at h
  obtain ⟨eligible, heligible, hshares, -, hweight, hentitlements⟩ := computePrismWindowInCut_eq_ok h
  obtain ⟨rfl, hrequested, hother⟩ := eligibleWindow_eq_ok hseq heligible
  refine ⟨(eligibleRecords shares foundBlock.anchorJobIssuedAtMs).reverse, ?_, ?_, ?_, ?_, ?_, ?_, ?_,
    hentitlements, ?_⟩
  · exact (reverse_perm _).trans (sortBy_perm shareSeqCmp _)
  · exact pairwise_reverse.mpr (eligibleRecords_ascending hseq)
  · rw [hshares]
    exact ⟨_, Crossing.take_initial _ _, countShares_taken _ _⟩
  · rw [hshares]
    exact countShares_full _ _
  · rw [hshares]
    exact countShares_le _ _
  · rw [hweight, hshares, countShares_sum, hrequested, Nat.mul_comm]
    rfl
  · rw [hentitlements.total, hweight]
  · intro other hperm
    rw [← hwindow, computePrismWindow, computePrismWindow, computePrismWindowInCut,
      computePrismWindowInCut, hother other hperm, heligible]

theorem computePrismWindow_greedy_snapshot :
    ∃ window, computePrismWindow windowSnapshot windowBlock = .ok window ∧
      (window.entitlements.map fun e => e.weight.val).sum = window.countedWindowWeight.val ∧
      computePrismWindow windowSnapshot.reverse windowBlock = .ok window := by
  have hok : (computePrismWindow windowSnapshot windowBlock).isOk = true := by decide +kernel
  obtain ⟨window, hwindow⟩ := exists_of_isOk hok
  obtain ⟨newest, -, -, -, -, -, -, hsum, -, hother⟩ := computePrismWindow_greedy (by decide) hwindow
  exact ⟨window, hwindow, hsum, hother _ (reverse_perm _)⟩

end QbitPrism
