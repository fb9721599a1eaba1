import Mathlib
import QbitPrism.Payout.Aggregation
import QbitPrism.Payout.Allocation
import QbitPrism.Tx.Codec
import QbitPrism.Window.Greedy

/-!
# When a window can be allocated

The window counts difficulties up to 128 bits, and so does the allocator, but the allocator
multiplies them by sats. A window that folds can be allocated exactly when every program's weight
times the amount to share out still fits.
-/
namespace QbitPrism
open MachineInt Checked MergeByKey SortBy LargestRemainder

theorem provisionalShare_eq_error {totalSats : U64} {totalWeight : U128} {entitlement : WeightedEntitlement}
    {e : PrismError} (h : provisionalShare totalSats totalWeight entitlement = .error e) :
    e = .payoutPolicyOverflow := by
  simp only [provisionalShare, bind_eq_error, okOr_eq_error] at h
  rcases h with ⟨-, rfl⟩ | ⟨product, -, ⟨-, rfl⟩ | ⟨amount, -, h⟩⟩
  · rfl
  · rfl
  · cases h

theorem allocateWeightedAmounts_eq_error {totalSats : U64} {entitlements : List WeightedEntitlement}
    {e : PrismError} (h : allocateWeightedAmounts totalSats entitlements = .error e) :
    e = .payoutPolicyOverflow := by
  simp only [allocateWeightedAmounts, bind_eq_error, okOr_eq_error, require_eq_error] at h
  rcases h with ⟨-, rfl⟩ | ⟨_, -, ⟨-, rfl⟩ | ⟨_, -, hshares | ⟨_, -, ⟨-, rfl⟩ | ⟨_, -, ⟨-, rfl⟩ |
    ⟨_, -, ⟨-, rfl⟩ | ⟨_, -, h⟩⟩⟩⟩⟩⟩
  · rfl
  · rfl
  · obtain ⟨entitlement, -, hshare⟩ := exists_of_mapM_error hshares
    exact provisionalShare_eq_error hshare
  · rfl
  · rfl
  · rfl
  · cases h

theorem allocateWeightedAmounts_overflow_iff (totalSats : U64) {entitlements : List WeightedEntitlement}
    (hpos : 0 < (entitlements.map fun e => e.weight.val).sum)
    (hsum : (entitlements.map fun e => e.weight.val).sum < 2 ^ 128) :
    allocateWeightedAmounts totalSats entitlements ≠ .error .payoutPolicyOverflow ↔
      ∀ e ∈ entitlements, totalSats.val * e.weight.val < 2 ^ 128 := by
  constructor
  · intro hne e he
    cases hout : allocateWeightedAmounts totalSats entitlements with
    | error err =>
      rw [hout, allocateWeightedAmounts_eq_error hout] at hne
      exact absurd rfl hne
    | ok out =>
      simp only [allocateWeightedAmounts, bind_eq_ok] at hout
      obtain ⟨W, -, -, -, shares, hshares, -⟩ := hout
      obtain ⟨share, -, hshare⟩ := exists_of_mapM_ok hshares ((mem_sortBy _).mpr he)
      exact (provisionalShare_eq_ok.mp hshare).1
  · intro hfit herror
    obtain ⟨out, hout⟩ := allocateWeightedAmounts_isOk totalSats hpos hsum hfit
    rw [hout] at herror
    cases herror

theorem computePrismWindow_weight {shares : List AcceptedShare} {foundBlock : FoundBlock}
    {window : PrismWindow} (h : computePrismWindow shares foundBlock = .ok window) :
    0 < (window.entitlements.map fun e => e.weight.val).sum ∧
      (window.entitlements.map fun e => e.weight.val).sum < 2 ^ 128 := by
  rw [computePrismWindow] at h
  obtain ⟨eligible, heligible, hshares, hsome, hweight, hentitlements⟩ := computePrismWindowInCut_eq_ok h
  rw [hentitlements.total, ← hweight]
  refine ⟨?_, window.countedWindowWeight.isLt⟩
  rw [hweight, hshares, countShares_sum]
  rw [hshares] at hsome
  have hrequested : window.requestedWindowWeight.val ≠ 0 := fun hzero => hsome (countShares_zero hzero eligible)
  obtain ⟨share, hshare⟩ : ∃ share, share ∈ eligible := by
    apply List.exists_mem_of_ne_nil
    rintro rfl
    exact hsome rfl
  have hpositive : share.shareDifficulty ≠ 0 := by
    have hmem := List.mem_of_mem_filter ((eligibleWindow_perm heligible).mem_iff.mp hshare)
    simp only [eligibleWindow, bind_eq_ok] at heligible
    obtain ⟨-, -, ⟨ids, admitted⟩, hfold, -⟩ := heligible
    exact (admitShare_fold.mp hfold).1.1 share hmem
  have hweighs : share.difficulty ≤ Crossing.weight AcceptedShare.difficulty eligible :=
    List.single_le_sum (fun _ _ => Nat.zero_le _) _ (List.mem_map_of_mem hshare)
  have hdifficulty : share.difficulty ≠ 0 := fun hzero =>
    hpositive (Unsigned.ext (hzero.trans Unsigned.val_zero.symm))
  omega

/-- A window that folds is allocated exactly when no program's weight overflows when multiplied by
the amount to share out; merging never overflows. -/
theorem allocate_window_iff {crypto : Crypto} {shares : List AcceptedShare} {foundBlock : FoundBlock}
    {manifest : PrismRewardManifest}
    (h : buildPrismRewardManifestWithCut crypto shares foundBlock none = .ok manifest) (coinbaseValueSats : U64) :
    (aggregateEntitlementsByPayoutProgram manifest.entitlements ≠ .error .payoutPolicyOverflow ∧
        ∀ merged, aggregateEntitlementsByPayoutProgram manifest.entitlements = .ok merged →
          allocateWeightedAmounts coinbaseValueSats merged ≠ .error .payoutPolicyOverflow) ↔
      ∀ e ∈ manifest.entitlements,
        coinbaseValueSats.val * programWeight manifest.entitlements e.programKey < 2 ^ 128 := by
  simp only [buildPrismRewardManifestWithCut, bind_eq_ok, pure_eq_ok] at h
  obtain ⟨window, hwindow, newest, -, oldest, -, rfl⟩ := h
  obtain ⟨hpos, hsum⟩ := computePrismWindow_weight hwindow
  obtain ⟨merged, hmerged⟩ := aggregateEntitlements_isOk hsum
  have hagg := aggregateEntitlements_eq_ok hmerged
  have hallocate := allocateWeightedAmounts_overflow_iff coinbaseValueSats (hagg.total ▸ hpos) (hagg.total ▸ hsum)
  dsimp only
  rw [hmerged]
  constructor
  · rintro ⟨-, hfits⟩ e he
    obtain ⟨own, hown, hkey⟩ := List.mem_map.mp ((hagg.programs e.programKey).mpr ⟨e, he, rfl⟩)
    rw [← hkey, ← hagg.weight own hown]
    exact hallocate.mp (hfits merged rfl) own hown
  · intro hfits
    refine ⟨by rintro ⟨⟩, ?_⟩
    rintro _ ⟨⟩
    refine hallocate.mpr fun own hown => ?_
    obtain ⟨e, he, hkey⟩ := (hagg.programs own.programKey).mp (List.mem_map_of_mem hown)
    rw [hagg.weight own hown, ← hkey]
    exact hfits e he

def wideShare : AcceptedShare := windowShare 1 (.wrapping (2 ^ 98)) 9 9

def wideBlock : FoundBlock :=
  { blockHeight := 100, coinbaseValueSats := 5000000000, networkDifficulty := .wrapping (2 ^ 98)
    anchorJobIssuedAtMs := 10 }

theorem wideBlock_overflows :
    ∃ manifest merged, buildPrismRewardManifestWithCut constantCrypto [wideShare] wideBlock none = .ok manifest ∧
      aggregateEntitlementsByPayoutProgram manifest.entitlements = .ok merged ∧
      allocateWeightedAmounts wideBlock.coinbaseValueSats merged = .error .payoutPolicyOverflow := by
  let merging : Except PrismError (PrismRewardManifest × List WeightedEntitlement) := do
    let manifest ← buildPrismRewardManifestWithCut constantCrypto [wideShare] wideBlock none
    let merged ← aggregateEntitlementsByPayoutProgram manifest.entitlements
    pure (manifest, merged)
  have hrefused : merging.toOption.any
      (fun out => !(allocateWeightedAmounts wideBlock.coinbaseValueSats out.2).isOk) = true := by
    decide +kernel
  obtain ⟨⟨_, _⟩, hrun, hnot⟩ := exists_of_any hrefused
  simp only [merging, bind_eq_ok, pure_eq_ok, Prod.mk.injEq] at hrun
  obtain ⟨manifest, hmanifest, merged, hmerged, rfl, rfl⟩ := hrun
  refine ⟨manifest, merged, hmanifest, hmerged, ?_⟩
  cases hallocate : allocateWeightedAmounts wideBlock.coinbaseValueSats merged with
  | ok out => simp [hallocate, Except.isOk, Except.toBool] at hnot
  | error e => rw [allocateWeightedAmounts_eq_error hallocate]

/-- A window of one share of 2^98, which folds, cannot share out fifty coins. -/
theorem allocate_window_overflows :
    wideBlock.coinbaseValueSats.val ≤ qbitMaxMoneySats ∧
      ∃ manifest merged,
        buildPrismRewardManifestWithCut constantCrypto [wideShare] wideBlock none = .ok manifest ∧
        aggregateEntitlementsByPayoutProgram manifest.entitlements = .ok merged ∧
        allocateWeightedAmounts wideBlock.coinbaseValueSats merged = .error .payoutPolicyOverflow :=
  ⟨by decide, wideBlock_overflows⟩

theorem allocate_window_iff_wideBlock :
    ∃ manifest, buildPrismRewardManifestWithCut constantCrypto [wideShare] wideBlock none = .ok manifest ∧
      ¬∀ e ∈ manifest.entitlements,
        wideBlock.coinbaseValueSats.val * programWeight manifest.entitlements e.programKey < 2 ^ 128 := by
  obtain ⟨manifest, merged, hmanifest, hmerged, hallocate⟩ := wideBlock_overflows
  refine ⟨manifest, hmanifest, ?_⟩
  rw [← allocate_window_iff hmanifest]
  rintro ⟨-, hfits⟩
  exact hfits merged hmerged hallocate

end QbitPrism
