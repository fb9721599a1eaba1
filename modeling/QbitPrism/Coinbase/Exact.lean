import Mathlib
import QbitPrism.Coinbase.Parent

/-!
# The coinbase pays what the policy decided

A builder whose entitlements add up to the coinbase value rounds nothing: every output is its
entitlement's weight, and the pinned output only changes places. Without a pin, and with programs
in lower case, the builder's split is the payout policy's own, weight by weight.
-/
namespace QbitPrism
open MachineInt Checked SortBy LargestRemainder List

/-- The entitlement of an output, its program spelled as the manifest spells it. -/
def OutputShare.entitlement (share : OutputShare) : WeightedEntitlement :=
  ⟨⟨share.recipientId, share.orderKey, Hex.encode share.p2mrProgram.toList⟩, share.weight⟩

def WeightedEntitlement.payee (e : WeightedEntitlement) : PayoutIdentity :=
  { e.toPayoutIdentity with p2mrProgramHex := e.p2mrProgramHex.toLower }

/-- Canonical order, but for a pinned entitlement that has moved to the front. -/
def CoinbaseOrder (entitlements ordered : List WeightedEntitlement) : Option PinnedFirstOutput → Prop
  | none => ordered.Perm entitlements ∧ ordered.Pairwise (Le WeightedEntitlement.cmp)
  | some pinned => ∃ before first after, pinnedMatches pinned first ∧
      ordered = first :: (before ++ after) ∧ (before ++ first :: after).Perm entitlements ∧
      (before ++ first :: after).Pairwise (Le WeightedEntitlement.cmp)

theorem orderEntitlements_order {entitlements ordered : List WeightedEntitlement}
    {pinned : Option PinnedFirstOutput} (h : orderEntitlements entitlements pinned = .ok ordered) :
    CoinbaseOrder entitlements ordered pinned := by
  have hperm := sortBy_perm WeightedEntitlement.cmp entitlements
  have hsorted := sortBy_pairwise WeightedEntitlement.cmp entitlements
  cases pinned with
  | none =>
    cases h
    exact ⟨hperm, hsorted⟩
  | some pinned =>
    simp only [orderEntitlements, bind_eq_ok, pure_eq_ok] at h
    obtain ⟨index, hindex, rfl⟩ := h
    obtain ⟨first, hfirst, hmatches, -⟩ := pinnedEntitlementIndex_eq_ok hindex
    obtain ⟨hlt, hget⟩ := List.getElem?_eq_some_iff.mp hfirst
    have hsplit : sortBy WeightedEntitlement.cmp entitlements =
        (sortBy WeightedEntitlement.cmp entitlements).take index ++
          first :: (sortBy WeightedEntitlement.cmp entitlements).drop (index + 1) := by
      rw [← hget, ← drop_eq_getElem_cons hlt, take_append_drop]
    refine ⟨_, first, _, hmatches, ?_, hsplit ▸ hperm, hsplit ▸ hsorted⟩
    rw [hfirst, eraseIdx_eq_take_drop_succ]
    rfl

variable {e : WeightedEntitlement} {o : AllocatedOutput} {request : CoinbaseBuildRequest} {manifest : PayoutManifest}

theorem PaysEntitlement.payee (h : PaysEntitlement e o) : o.entitlement.toPayoutIdentity = e.payee := by
  rw [OutputShare.entitlement, WeightedEntitlement.payee, h.recipientId, h.orderKey, Hex.toLower_of_decode h.program]

theorem PaysEntitlement.entitlement_eq (h : PaysEntitlement e o)
    (hlower : e.p2mrProgramHex.toLower = e.p2mrProgramHex) : o.entitlement = e := by
  rw [OutputShare.entitlement, h.recipientId, h.orderKey, h.weight, ← Hex.toLower_of_decode h.program, hlower]

theorem buildManifest_allocated {crypto : Crypto} (h : buildManifest crypto request = .ok manifest) :
    ∃ outputs, allocateOutputs request = .ok outputs ∧
      manifest.outputs = outputs.zipIdx.map fun x => payoutOutput x.1 x.2 := by
  simp only [buildManifest, bind_eq_ok, pure_eq_ok] at h
  obtain ⟨built, hbuilt, scriptSig, -, suffix, -, nonce, -, rfl⟩ := h
  exact ⟨built.outputs, (buildCoinbase_eq_ok hbuilt).1, rfl⟩

theorem map_payoutOutput {α : Type*} (f : PayoutOutput → α) (g : AllocatedOutput → α)
    (outputs : List AllocatedOutput) (hfg : ∀ o i, f (payoutOutput o i) = g o) :
    (outputs.zipIdx.map fun x => payoutOutput x.1 x.2).map f = outputs.map g := by
  rw [map_map, ← zipIdx_map_fst 0 outputs, map_map, zipIdx_map_fst]
  exact map_congr_left fun x _ => hfg x.1 x.2

theorem buildManifest_exact {crypto : Crypto} (h : buildManifest crypto request = .ok manifest)
    (hsum : (request.entitlements.map fun e => e.weight.val).sum = request.coinbaseValueSats.val) :
    ∃ ordered, orderEntitlements request.entitlements request.pinnedFirstOutput = .ok ordered ∧
      (manifest.outputs.map fun o => (o.toPayoutIdentity, o.amountSats.val)) =
        ordered.map fun e => (e.payee, e.weight.val) := by
  obtain ⟨outputs, houtputs, hmanifest⟩ := buildManifest_allocated h
  obtain ⟨⟨ordered, hordered, hpays⟩, hsplit⟩ := allocateOutputs_ordered houtputs
  refine ⟨ordered, hordered, ?_⟩
  rw [hmanifest, map_payoutOutput _ (fun o => (o.entitlement.toPayoutIdentity, o.amountSats.val)) _ fun _ _ => rfl]
  have hexact : ∀ o ∈ outputs, o.amountSats.val = o.weight.val := fun o ho => hsplit.exact hsum ho
  clear hmanifest hsplit houtputs hordered
  induction hpays with
  | nil => rfl
  | cons hpay _ ih =>
    rw [map_cons, map_cons, ih fun o ho => hexact o (mem_cons_of_mem _ ho), hpay.payee,
      hexact _ mem_cons_self, hpay.weight]

theorem outputRemainderCmp_eq (a b : Provisional 64 OutputShare) :
    outputRemainderCmp a b = remainderCmp (a.map OutputShare.entitlement) (b.map OutputShare.entitlement) := by
  simp only [outputRemainderCmp, remainderCmp, WeightedEntitlement.cmp, PayoutIdentity.canonicalCmp,
    compareLex, compareOn, Provisional.map, OutputShare.entitlement, Hex.compare_encode]

theorem provisionalOutput_share {value : U64} {totalWeight : U128} {p : Provisional 64 OutputShare}
    (h : provisionalOutput value totalWeight e = .ok p) (hlower : e.p2mrProgramHex.toLower = e.p2mrProgramHex) :
    provisionalShare value totalWeight e = .ok (p.map OutputShare.entitlement) := by
  obtain ⟨hpays, hamount, hremainder⟩ := provisionalOutput_eq_ok h
  refine provisionalShare_eq_ok.mpr ⟨?_, hpays.entitlement_eq hlower, hamount, hremainder⟩
  simp only [provisionalOutput, bind_eq_ok, okOr_eq_ok, Unsigned.checkedMul_eq_some, U64.toU128_val] at h
  obtain ⟨-, -, product, hproduct, -⟩ := h
  exact hproduct ▸ product.isLt

theorem allocateOutputs_policy {outputs : List AllocatedOutput} (h : allocateOutputs request = .ok outputs)
    (hpin : request.pinnedFirstOutput = none)
    (hlower : ∀ e ∈ request.entitlements, e.p2mrProgramHex.toLower = e.p2mrProgramHex) :
    allocateWeightedAmounts request.coinbaseValueSats request.entitlements =
      .ok (outputs.map fun o => (o.entitlement, o.amountSats)) := by
  obtain ⟨ordered, W, ps, bumped, hordered, hW, hpos, hps, hbumped, rfl⟩ := allocateOutputs_bumped h
  rw [hpin] at hordered
  cases hordered
  have hshares : (sortBy WeightedEntitlement.cmp request.entitlements).mapM
      (provisionalShare request.coinbaseValueSats W) = .ok (ps.map (.map OutputShare.entitlement)) := by
    rw [mapM_eq_ok, List.forall₂_map_right_iff]
    refine ((List.forall₂_and_left _ _).mpr ⟨fun e he => he, mapM_eq_ok.mp hps⟩).imp ?_
    rintro e p ⟨he, hp⟩
    exact provisionalOutput_share hp (hlower e ((mem_sortBy _).mp he))
  have hne : W ≠ 0 := by
    rintro rfl
    exact absurd hpos (by simp)
  have hle : ∀ a b, Le outputRemainderCmp a b ↔
      Le remainderCmp (a.map OutputShare.entitlement) (b.map OutputShare.entitlement) := by
    intro a b
    unfold Le
    rw [outputRemainderCmp_eq]
  have hbumps := congrArg (Option.map (List.map (Provisional.map OutputShare.entitlement))) hbumped
  rw [← bumpAll_map, ← remainderOrder_map ps hle, ← held_map OutputShare.entitlement] at hbumps
  rw [allocateWeightedAmounts_of_bumped hW hne hshares hbumps, map_map, map_map]
  rfl

/-- A coinbase over entitlements that add up to its value pays every entitlement exactly, in
canonical order but for the pinned one, whichever one is pinned; and without a pin, over lower-case
programs, it pays what the policy's split decides. -/
theorem buildManifest_pays_policy {crypto : Crypto} {request : CoinbaseBuildRequest}
    {manifest : PayoutManifest} (h : buildManifest crypto request = .ok manifest) :
    ((request.entitlements.map fun e => e.weight.val).sum = request.coinbaseValueSats.val →
      (∃ ordered, CoinbaseOrder request.entitlements ordered request.pinnedFirstOutput ∧
        (manifest.outputs.map fun o => (o.toPayoutIdentity, o.amountSats.val)) =
          ordered.map fun e => (e.payee, e.weight.val)) ∧
      manifest.outputs.map (·.vout) = List.range manifest.outputs.length ∧
      ∀ pin manifest', buildManifest crypto { request with pinnedFirstOutput := pin } = .ok manifest' →
        (manifest'.outputs.map fun o => (o.toPayoutIdentity, o.amountSats.val)).Perm
          (manifest.outputs.map fun o => (o.toPayoutIdentity, o.amountSats.val))) ∧
    (request.pinnedFirstOutput = none →
      (∀ e ∈ request.entitlements, e.p2mrProgramHex.toLower = e.p2mrProgramHex) →
      allocateWeightedAmounts request.coinbaseValueSats request.entitlements =
        .ok (manifest.outputs.map fun o => (⟨o.toPayoutIdentity, o.weight⟩, o.amountSats))) := by
  obtain ⟨outputs, houtputs, hmanifest⟩ := buildManifest_allocated h
  constructor
  · intro hsum
    obtain ⟨ordered, hordered, hpaid⟩ := buildManifest_exact h hsum
    refine ⟨⟨ordered, orderEntitlements_order hordered, hpaid⟩, ?_, ?_⟩
    · rw [hmanifest, length_map, length_zipIdx, map_map, range_eq_range', ← zipIdx_map_snd 0 outputs]
      rfl
    · intro pin manifest' h'
      obtain ⟨ordered', hordered', hpaid'⟩ := buildManifest_exact h' hsum
      rw [hpaid, hpaid']
      exact ((orderEntitlements_perm hordered').trans (orderEntitlements_perm hordered).symm).map _
  · intro hpin hlower
    rw [allocateOutputs_policy houtputs hpin hlower, hmanifest,
      map_payoutOutput _ (fun o => (o.entitlement, o.amountSats)) _ fun _ _ => rfl]

def sampleCoinbaseRequest (pinned : Option PinnedFirstOutput) : CoinbaseBuildRequest where
  blockHeight := 100
  coinbaseValueSats := 10
  entitlements := [
    ⟨⟨"bob", "02", Hex.encode (List.replicate 32 2)⟩, 3⟩,
    ⟨⟨"alice", "01", Hex.encode (List.replicate 32 1)⟩, 5⟩,
    ⟨⟨"pool", "zz", Hex.encode (List.replicate 32 9)⟩, 2⟩]
  witnessNonceHex := none
  witnessMerkleLeavesHex := []
  coinbaseScriptSigSuffixHex := none
  pinnedFirstOutput := pinned

def sampleCoinbaseCrypto : Crypto where
  sha256 _ := ⟨List.replicate 32 0, rfl⟩
  ed25519ValidKey _ := true
  ed25519Verifies _ _ _ := true

def samplePin : PinnedFirstOutput := ⟨"pool", "zz", Hex.encode (List.replicate 32 9)⟩

theorem buildManifest_pays_policy_sample :
    ∃ manifest pinned, buildManifest sampleCoinbaseCrypto (sampleCoinbaseRequest none) = .ok manifest ∧
      buildManifest sampleCoinbaseCrypto (sampleCoinbaseRequest (some samplePin)) = .ok pinned ∧
      (pinned.outputs.map fun o => (o.toPayoutIdentity, o.amountSats.val)).Perm
        (manifest.outputs.map fun o => (o.toPayoutIdentity, o.amountSats.val)) ∧
      allocateWeightedAmounts 10 (sampleCoinbaseRequest none).entitlements =
        .ok (manifest.outputs.map fun o => (⟨o.toPayoutIdentity, o.weight⟩, o.amountSats)) := by
  have hok : (buildManifest sampleCoinbaseCrypto (sampleCoinbaseRequest none)).isOk = true := by
    decide +kernel
  have hpinOk : (buildManifest sampleCoinbaseCrypto (sampleCoinbaseRequest (some samplePin))).isOk = true := by
    decide +kernel
  obtain ⟨manifest, hmanifest⟩ := exists_of_isOk hok
  obtain ⟨pinned, hpinned⟩ := exists_of_isOk hpinOk
  obtain ⟨hexact, hpolicy⟩ := buildManifest_pays_policy hmanifest
  refine ⟨manifest, pinned, hmanifest, hpinned, (hexact (by decide)).2.2 _ pinned hpinned, hpolicy rfl ?_⟩
  intro e he
  fin_cases he <;> exact Hex.toLower_of_decode (Hex.decode_encode _)

end QbitPrism
