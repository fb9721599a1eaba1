import Mathlib
import QbitPrism.Lib.Chunks
import QbitPrism.Window.Greedy

/-!
# The window folded in chunks

The builder counts the window serially and spreads the rest over worker threads: each chunk's
counted shares, digest bytes and weights are made by a worker and joined in chunk order. The
joined window is the one the serial fold gives.
-/
namespace QbitPrism
open MachineInt Checked MergeByKey SortBy ByteReader List

/-- How much of a build may run on worker threads. -/
structure Parallelism where
  workers : ℕ
  chunkLen : ℕ
  workers_pos : 1 ≤ workers
  chunkLen_pos : 1 ≤ chunkLen

def Parallelism.serial : Parallelism :=
  { workers := 1, chunkLen := 2 ^ 64 - 1, workers_pos := le_rfl, chunkLen_pos := by norm_num }

def Parallelism.isSerial (parallelism : Parallelism) : Prop := parallelism.workers ≤ 1

instance (parallelism : Parallelism) : Decidable parallelism.isSerial := by
  unfold Parallelism.isSerial
  infer_instance

def takenDifficulties (remaining : U128) : List AcceptedShare → List U128
  | [] => []
  | share :: rest =>
    if remaining = 0 then []
    else
      let taken := if share.shareDifficulty.val ≤ remaining.val then share.shareDifficulty else remaining
      taken :: takenDifficulties (remaining.saturatingSub taken) rest

def AcceptedShare.minerKey (share : AcceptedShare) : PayoutIdentity :=
  ⟨share.minerId, share.orderKey, share.p2mrProgramHex⟩

structure FoldedChunk where
  shares : List CountedShare
  digestBytes : List UInt8
  weights : Std.TreeMap PayoutIdentity U128 minerKeyCmp

def creditMerger : Merger PayoutIdentity (PayoutIdentity × U128) U128 PrismError where
  key credit := credit.1
  fresh _ := 0
  add weight credit := okOr (weight.checkedAdd credit.2) .windowOverflow

def foldChunk (chunk : List (AcceptedShare × U128)) : Except PrismError FoldedChunk := do
  let weights ← creditMerger.merge (chunk.map fun x => (x.1.minerKey, x.2))
  let shares := chunk.map fun x => countShare x.1 x.2
  pure { shares, digestBytes := shares.flatMap sliceDigestBytes, weights }

def FoldedChunk.append (folded chunk : FoldedChunk) : Except PrismError FoldedChunk := do
  let weights ← chunk.weights.toList.foldlM creditMerger.step folded.weights
  pure {
    shares := folded.shares ++ chunk.shares
    digestBytes := folded.digestBytes ++ chunk.digestBytes
    weights }

/-- The chunks are consumed in order, whichever worker is done first. -/
def foldChunks (chunks : List (List (AcceptedShare × U128))) : Except PrismError FoldedChunk :=
  chunks.foldlM (fun folded chunk => do
    let part ← foldChunk chunk
    folded.append part) { shares := [], digestBytes := [], weights := ∅ }

def computePrismWindowParallel (crypto : Crypto) (shares : List AcceptedShare) (foundBlock : FoundBlock)
    (cut : Option WindowCut) (parallelism : Parallelism) : Except PrismError (PrismWindow × String) := do
  let (eligible, requestedWindowWeight) ← eligibleWindow shares foundBlock cut
  let counted := takenDifficulties requestedWindowWeight eligible
  require (counted ≠ []) (.emptyWindow foundBlock.anchorJobIssuedAtMs)
  let countedWindowWeight ← okOr (Unsigned.checkedSum counted) .windowOverflow
  let taken := eligible.take counted.length
  let newest ← okOr taken.head? (.panicked "index out of bounds")
  let chunkLen := min parallelism.chunkLen taken.length
  let folded ← foldChunks ((taken.zip counted).toChunks chunkLen)
  pure ({
    anchorJobIssuedAtMs := foundBlock.anchorJobIssuedAtMs
    anchorShareSeq := newest.shareSeq
    requestedWindowWeight
    countedWindowWeight
    shares := folded.shares
    entitlements := folded.weights.toList.map fun kv => { kv.1 with weight := kv.2 } },
    crypto.sha256Hex folded.digestBytes)

def buildPrismRewardManifestParallel (crypto : Crypto) (shares : List AcceptedShare)
    (foundBlock : FoundBlock) (cut : Option WindowCut) (parallelism : Parallelism) :
    Except PrismError PrismRewardManifest :=
  if parallelism.isSerial then buildPrismRewardManifestWithCut crypto shares foundBlock cut
  else do
    let (window, shareSliceDigestHex) ←
      computePrismWindowParallel crypto shares foundBlock cut parallelism
    let newest ← okOr window.shares.head? (.panicked "index out of bounds")
    let oldest ← okOr window.shares.getLast? (.panicked "non-empty PRISM windows have a last share")
    pure {
      schema := "qbit.prism.reward-manifest.v1"
      blockHeight := foundBlock.blockHeight
      coinbaseValueSats := foundBlock.coinbaseValueSats
      networkDifficulty := foundBlock.networkDifficulty
      windowMultiplier := prismWindowMultiplier
      requestedWindowWeight := window.requestedWindowWeight
      countedWindowWeight := window.countedWindowWeight
      anchorJobIssuedAtMs := window.anchorJobIssuedAtMs
      anchorShareSeq := window.anchorShareSeq
      newestShareSeq := newest.shareSeq
      oldestShareSeq := oldest.shareSeq
      cut
      includedShareCount := window.shares.length
      shareSliceDigestHex
      shares := window.shares
      entitlements := window.entitlements }

theorem countShares_eq (remaining : U128) (eligible : List AcceptedShare) :
    countShares remaining eligible =
      (eligible.zip (takenDifficulties remaining eligible)).map fun x => countShare x.1 x.2 := by
  induction eligible generalizing remaining with
  | nil => rfl
  | cons share rest ih =>
    rw [countShares, takenDifficulties]
    split
    · rfl
    · simp only [ih, zip_cons_cons, map_cons]

theorem takenDifficulties_length_le (remaining : U128) (eligible : List AcceptedShare) :
    (takenDifficulties remaining eligible).length ≤ eligible.length := by
  induction eligible generalizing remaining with
  | nil => exact le_rfl
  | cons share rest ih =>
    rw [takenDifficulties]
    split
    · exact Nat.zero_le _
    · exact Nat.succ_le_succ (ih _)

theorem take_zip (remaining : U128) (eligible : List AcceptedShare) :
    (eligible.take (takenDifficulties remaining eligible).length).zip (takenDifficulties remaining eligible) =
      eligible.zip (takenDifficulties remaining eligible) := by
  have hle := takenDifficulties_length_le remaining eligible
  have hzip : eligible.zip (takenDifficulties remaining eligible) = _ := zip_eq_zip_take_min
  rw [min_eq_right hle, take_length] at hzip
  exact hzip.symm

variable {credit : PayoutIdentity × U128} {chunk done credited : List (AcceptedShare × U128)} {folded : FoldedChunk}

theorem creditMerger_add {weight weight' : U128} (h : creditMerger.add weight credit = .ok weight') :
    weight'.val = weight.val + credit.2.val := by
  rw [creditMerger, okOr_eq_ok, Unsigned.checkedAdd_eq_some] at h
  exact h

/-- What has been folded of the credited shares so far. -/
structure FoldedChunk.Folds (credited : List (AcceptedShare × U128)) (folded : FoldedChunk) : Prop where
  shares : folded.shares = credited.map fun x => countShare x.1 x.2
  digestBytes : folded.digestBytes = folded.shares.flatMap sliceDigestBytes
  weights : Summed creditMerger (·.val) (fun credit => credit.2.val)
    (credited.map fun x => (x.1.minerKey, x.2)) folded.weights

theorem foldChunk_folds (h : foldChunk chunk = .ok folded) : folded.Folds chunk := by
  simp only [foldChunk, bind_eq_ok, pure_eq_ok] at h
  obtain ⟨weights, hweights, rfl⟩ := h
  refine ⟨rfl, rfl, ?_⟩
  exact Merger.merge_summed (fun _ => rfl) (fun _ _ _ => creditMerger_add) hweights

theorem FoldedChunk.Folds.append {part joined : FoldedChunk} (hdone : folded.Folds done) (hpart : part.Folds chunk)
    (h : folded.append part = .ok joined) : joined.Folds (done ++ chunk) := by
  simp only [FoldedChunk.append, bind_eq_ok, pure_eq_ok] at h
  obtain ⟨weights, hweights, rfl⟩ := h
  refine ⟨?_, ?_, ?_⟩
  · rw [map_append, ← hdone.shares, ← hpart.shares]
  · rw [flatMap_append, ← hdone.digestBytes, ← hpart.digestBytes]
  · rw [map_append]
    have hentries := hdone.weights.foldlM_step (fun _ => rfl) (fun _ _ _ => creditMerger_add) hweights
    exact hpart.weights.of_entries (fun _ => rfl) hentries

theorem creditMerger_isOk {weight : U128} (h : weight.val + credit.2.val < 2 ^ 128) :
    ∃ weight', creditMerger.add weight credit = .ok weight' := by
  refine ⟨⟨_, h⟩, ?_⟩
  rw [creditMerger, okOr_eq_ok, Unsigned.checkedAdd_eq_some]

theorem FoldedChunk.Folds.next (hdone : folded.Folds done) (h : ((done ++ chunk).map fun x => x.2.val).sum < 2 ^ 128) :
    ∃ part joined, foldChunk chunk = .ok part ∧ folded.append part = .ok joined ∧
      joined.Folds (done ++ chunk) := by
  rw [map_append, sum_append] at h
  have hchunk : ((chunk.map fun x => (x.1.minerKey, x.2)).map fun credit => credit.2.val).sum < 2 ^ 128 := by
    rw [map_map]
    exact lt_of_le_of_lt (Nat.le_add_left _ _) h
  obtain ⟨weights, hweights⟩ : ∃ weights : Std.TreeMap PayoutIdentity U128 minerKeyCmp,
      creditMerger.merge (chunk.map fun x => (x.1.minerKey, x.2)) = .ok weights :=
    Merger.merge_isOk_of_lt (fun _ => rfl) (fun _ _ _ => creditMerger_add) (fun _ _ => creditMerger_isOk)
      hchunk
  obtain ⟨part, hpart⟩ : ∃ part, foldChunk chunk = .ok part := ⟨_, by rw [foldChunk, hweights]; rfl⟩
  have hfolds := foldChunk_folds hpart
  have hfits : ((done.map (fun x => (x.1.minerKey, x.2)) ++ part.weights.toList).map
      fun credit => credit.2.val).sum < 2 ^ 128 := by
    have htotal : (part.weights.toList.map fun credit => credit.2.val).sum = _ := hfolds.weights.total
    rw [map_append, sum_append, htotal, map_map, map_map]
    exact h
  obtain ⟨joined, hjoined⟩ := hdone.weights.foldlM_isOk (fun _ => rfl) (fun _ _ _ => creditMerger_add)
    (fun _ _ => creditMerger_isOk) hfits
  have happend : folded.append part = .ok ⟨folded.shares ++ part.shares,
      folded.digestBytes ++ part.digestBytes, joined⟩ := by
    rw [FoldedChunk.append, hjoined]
    rfl
  exact ⟨part, _, hpart, happend, hdone.append hfolds happend⟩

theorem foldChunks_isOk {chunks : List (List (AcceptedShare × U128))}
    (h : (chunks.flatten.map fun x => x.2.val).sum < 2 ^ 128) :
    ∃ folded, foldChunks chunks = .ok folded ∧ folded.Folds chunks.flatten := by
  refine foldlM_isOk _ chunks _ (fun done (folded : FoldedChunk) => folded.Folds done.flatten)
    ⟨rfl, rfl, Summed.nil⟩ ?_
  rintro done chunk folded ⟨rest, rfl⟩ ih
  rw [flatten_append, map_append, sum_append, flatten_append, flatten_singleton] at h
  have hfits : ((done.flatten ++ chunk).map fun x => x.2.val).sum < 2 ^ 128 :=
    lt_of_le_of_lt (Nat.le_add_right _ _) h
  obtain ⟨part, joined, hpart, happend, hjoined⟩ := ih.next hfits
  refine ⟨joined, ?_, ?_⟩
  · rw [hpart, ok_bind, happend]
  · rw [flatten_append, flatten_singleton]
    exact hjoined

theorem FoldedChunk.Folds.weight_eq (h : folded.Folds credited)
    {weights : Std.TreeMap PayoutIdentity WeightedEntitlement minerKeyCmp}
    (hweights : countedShareMerger.merge folded.shares = .ok weights) (k : PayoutIdentity) :
    weights[k]? = folded.weights[k]?.map fun weight => { k with weight } := by
  have hsummed : Summed countedShareMerger (fun e => e.weight.val) (fun s => s.countedDifficulty.val)
      folded.shares weights :=
    Merger.merge_summed (fun _ => rfl) (fun _ _ _ hadd => (countedShareMerger_add hadd).2) hweights
  have hkeys : k ∈ weights ↔ k ∈ folded.weights := by
    rw [hsummed.keys, h.weights.keys, h.shares]
    simp only [mem_map, exists_exists_and_eq_and]
    rfl
  have hsums : weights[k]?.elim 0 (fun e => e.weight.val) = folded.weights[k]?.elim 0 (·.val) := by
    rw [hsummed.perKey, h.weights.perKey, h.shares, filter_map, filter_map, map_map, map_map]
    rfl
  rw [Std.TreeMap.mem_iff_isSome_getElem?, Std.TreeMap.mem_iff_isSome_getElem?] at hkeys
  cases hentry : weights[k]? with
  | none =>
    cases hweight : folded.weights[k]? with
    | none => rfl
    | some weight => simp [hentry, hweight] at hkeys
  | some entry =>
    cases hweight : folded.weights[k]? with
    | none => simp [hentry, hweight] at hkeys
    | some weight =>
      rw [hentry, hweight] at hsums
      cases countedShareMerger_key hweights hentry
      cases Unsigned.ext hsums
      rfl

theorem FoldedChunk.Folds.entitlements (h : folded.Folds credited)
    (hsum : (credited.map fun x => x.2.val).sum < 2 ^ 128) :
    aggregateEntitlements folded.shares =
      .ok (folded.weights.toList.map fun kv => { kv.1 with weight := kv.2 }) := by
  have hcounted : (folded.shares.map fun s => s.countedDifficulty.val) =
      credited.map fun x => x.2.val := by
    rw [h.shares, map_map]
    rfl
  obtain ⟨weights, hweights⟩ := countedShareMerger_isOk (hcounted ▸ hsum)
  have hsame : weights.Equiv
      (folded.weights.map fun k weight => ({ k with weight } : WeightedEntitlement)) := by
    apply Std.TreeMap.Equiv.of_forall_constGet?_eq
    intro k
    rw [Std.TreeMap.getElem?_map]
    exact h.weight_eq hweights k
  rw [aggregateEntitlements, hweights, ok_bind, hsame.toList_eq, Std.TreeMap.toList_map, map_map]
  rfl

theorem countedDifficulties_eq (remaining : U128) (eligible : List AcceptedShare) :
    (countShares remaining eligible).map (·.countedDifficulty) = takenDifficulties remaining eligible := by
  rw [countShares_eq, map_map]
  exact map_snd_zip (takenDifficulties_length_le remaining eligible)

theorem countShares_sum_lt (remaining : U128) (eligible : List AcceptedShare) :
    ((countShares remaining eligible).map fun c => c.countedDifficulty.val).sum < 2 ^ 128 := by
  rw [countShares_sum]
  exact lt_of_le_of_lt (min_le_left _ _) remaining.isLt

theorem head?_countShares {remaining : U128} {eligible : List AcceptedShare}
    (h : takenDifficulties remaining eligible ≠ []) :
    ∃ newest counted, (eligible.take (takenDifficulties remaining eligible).length).head? = some newest ∧
      (countShares remaining eligible).head? = some (countShare newest counted) := by
  cases eligible with
  | nil => exact absurd rfl h
  | cons share rest =>
    rw [takenDifficulties] at h ⊢
    rw [countShares]
    by_cases hzero : remaining = 0
    · exact absurd (if_pos hzero) h
    · rw [if_neg hzero, if_neg hzero]
      exact ⟨share, _, rfl, rfl⟩

theorem computePrismWindowParallel_eq (crypto : Crypto) (shares : List AcceptedShare)
    (foundBlock : FoundBlock) (cut : Option WindowCut) (parallelism : Parallelism) :
    computePrismWindowParallel crypto shares foundBlock cut parallelism =
      (computePrismWindowInCut shares foundBlock cut).map fun window =>
        (window, shareSliceDigestHex crypto window.shares) := by
  cases heligible : eligibleWindow shares foundBlock cut with
  | error e =>
    rw [computePrismWindowParallel, computePrismWindowInCut, heligible]
    rfl
  | ok result =>
    obtain ⟨eligible, weight⟩ := result
    by_cases hempty : takenDifficulties weight eligible = []
    · have hnone : countShares weight eligible = [] := by
        rw [countShares_eq, hempty, zip_nil_right, map_nil]
      rw [computePrismWindowParallel, computePrismWindowInCut, heligible]
      simp only [ok_bind, hempty, hnone]
      rfl
    · have hsum := countShares_sum_lt weight eligible
      have htotal : Unsigned.checkedSum (takenDifficulties weight eligible) = some ⟨_, hsum⟩ := by
        rw [← countedDifficulties_eq, Unsigned.checkedSum_eq_some, map_map]
        rfl
      have hfits := hsum
      rw [countShares_eq, map_map] at hfits
      obtain ⟨newest, counted, hnewest, hhead⟩ := head?_countShares hempty
      obtain ⟨folded, hfolded, hfolds⟩ : ∃ folded,
          foldChunks (((eligible.take (takenDifficulties weight eligible).length).zip
            (takenDifficulties weight eligible)).toChunks (min parallelism.chunkLen
              (eligible.take (takenDifficulties weight eligible).length).length)) = .ok folded ∧
            folded.Folds _ := by
        apply foldChunks_isOk
        rw [Chunks.toChunks_flatten, take_zip]
        exact hfits
      rw [Chunks.toChunks_flatten, take_zip] at hfolds
      have hcounted : countShares weight eligible = folded.shares := by
        rw [hfolds.shares, countShares_eq]
      have hdifficulties := countedDifficulties_eq weight eligible
      rw [hcounted] at hdifficulties hhead
      rw [computePrismWindowParallel, computePrismWindowInCut, heligible]
      simp only [ok_bind, hcounted, hfolds.entitlements hfits, hhead, hdifficulties, htotal, okOr_some,
        hfolded, hnewest, require_of hempty]
      rw [hfolds.digestBytes]
      rfl

theorem buildPrismRewardManifestParallel_eq_ok {crypto : Crypto} {shares : List AcceptedShare}
    {foundBlock : FoundBlock} {cut : Option WindowCut} {parallelism : Parallelism} {manifest : PrismRewardManifest}
    (h : buildPrismRewardManifestParallel crypto shares foundBlock cut parallelism = .ok manifest) :
    buildPrismRewardManifestWithCut crypto shares foundBlock cut = .ok manifest := by
  unfold buildPrismRewardManifestParallel at h
  split at h
  · exact h
  · rw [computePrismWindowParallel_eq] at h
    rw [buildPrismRewardManifestWithCut]
    cases hserial : computePrismWindowInCut shares foundBlock cut with
    | error e =>
      rw [hserial] at h
      exact nomatch h
    | ok window =>
      rw [hserial] at h
      exact h

/-- The number of workers and the length of their chunks change neither the manifest nor the
error. -/
theorem buildPrismRewardManifestParallel_serial (crypto : Crypto) (shares : List AcceptedShare)
    (foundBlock : FoundBlock) (cut : Option WindowCut) (parallelism : Parallelism) :
    buildPrismRewardManifestParallel crypto shares foundBlock cut parallelism =
      buildPrismRewardManifestWithCut crypto shares foundBlock cut := by
  unfold buildPrismRewardManifestParallel
  split
  · rfl
  · rw [computePrismWindowParallel_eq, buildPrismRewardManifestWithCut]
    cases computePrismWindowInCut shares foundBlock cut with
    | error | ok => rfl

end QbitPrism
