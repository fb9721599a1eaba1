import Mathlib
import QbitPrism.Coinbase.Outputs
import QbitPrism.Ctv.Manifest

/-!
# A built coinbase as the parent of its fanouts

What the fanout manifests and the output policy read from a built coinbase: its txid, the output
at place 0, and the amounts when the entitlements add up to the coinbase value.
-/
namespace QbitPrism
open MachineInt Checked SortBy ByteReader List

variable {request : CoinbaseBuildRequest} {manifest : PayoutManifest} {entitlements : List WeightedEntitlement}
  {pinned : PinnedFirstOutput}

theorem buildManifest_txid {crypto : Crypto} (h : buildManifest crypto request = .ok manifest) {fieldName : String}
    {tx : ParsedTransaction} (htx : parseTransactionHex manifest.coinbaseTxHex fieldName = .ok tx) :
    tx.txidHex crypto = manifest.coinbaseTxid := by
  simp only [buildManifest, bind_eq_ok, pure_eq_ok] at h
  obtain ⟨built, hbuilt, scriptSig, -, suffix, -, nonce, -, rfl⟩ := h
  obtain ⟨-, hwithout⟩ := buildCoinbase_parsed hbuilt htx
  rw [ParsedTransaction.txidHex, hwithout]
  simp only [buildCoinbase, bind_eq_ok, pure_eq_ok] at hbuilt
  obtain ⟨_, -, _, -, _, -, _, -, _, -, _, -, _, -, _, -, _, -, rfl⟩ := hbuilt
  rfl

theorem pinnedEntitlementIndex_eq_ok {index : ℕ} (h : pinnedEntitlementIndex entitlements pinned = .ok index) :
    ∃ e, entitlements[index]? = some e ∧ pinnedMatches pinned e ∧
      ∀ e' ∈ entitlements, pinnedMatches pinned e' → e' = e := by
  unfold pinnedEntitlementIndex at h
  split at h
  case h_1 => cases h
  case h_2 _ hi =>
      cases h
      have hplace : ∀ e' i, entitlements[i]? = some e' → pinnedMatches pinned e' → i = index := by
        intro e' i hget hmatches
        have hmem : i ∈ (entitlements.zipIdx.filter fun x => pinnedMatches pinned x.1).map Prod.snd :=
          mem_map.mpr ⟨(e', i), mem_filter.mpr
            ⟨mem_zipIdx_iff_getElem?.mpr hget, decide_eq_true hmatches⟩, rfl⟩
        rw [hi] at hmem
        exact mem_singleton.mp hmem
      have hmem : index ∈ (entitlements.zipIdx.filter fun x => pinnedMatches pinned x.1).map Prod.snd := by
        rw [hi]
        exact mem_singleton_self index
      obtain ⟨⟨e, i⟩, he, rfl⟩ := mem_map.mp hmem
      obtain ⟨he, hmatches⟩ := mem_filter.mp he
      have hget := mem_zipIdx_iff_getElem?.mp he
      refine ⟨e, hget, of_decide_eq_true hmatches, ?_⟩
      intro e' he' hmatches'
      obtain ⟨j, hj⟩ := List.getElem?_of_mem he'
      cases hplace e' j hj hmatches'
      exact Option.some.inj (hj.symm.trans hget)
  case h_3 => cases h

theorem orderEntitlements_pinned {ordered : List WeightedEntitlement}
    (h : orderEntitlements entitlements (some pinned) = .ok ordered) :
    ∃ e rest, ordered = e :: rest ∧ pinnedMatches pinned e ∧
      ∀ e' ∈ entitlements, pinnedMatches pinned e' → e' = e := by
  simp only [orderEntitlements, bind_eq_ok, pure_eq_ok] at h
  obtain ⟨index, hindex, rfl⟩ := h
  obtain ⟨e, he, hmatches, honly⟩ := pinnedEntitlementIndex_eq_ok hindex
  refine ⟨e, (sortBy WeightedEntitlement.cmp entitlements).eraseIdx index, by rw [he]; rfl, hmatches, ?_⟩
  intro e' he'
  exact honly e' ((mem_sortBy _).mpr he')

theorem buildManifest_pinned {crypto : Crypto} {pinned : PinnedFirstOutput}
    (h : buildManifest crypto request = .ok manifest) (hpinned : request.pinnedFirstOutput = some pinned)
    (hsum : (request.entitlements.map fun e => e.weight.val).sum = request.coinbaseValueSats.val) :
    ∃ first e, manifest.outputs.head? = some first ∧ first.vout = 0 ∧ e ∈ request.entitlements ∧
      pinnedMatches pinned e ∧ (∀ e' ∈ request.entitlements, pinnedMatches pinned e' → e' = e) ∧
      first.recipientId = e.recipientId ∧ first.orderKey = e.orderKey ∧
      Hex.decode e.p2mrProgramHex = Hex.decode first.p2mrProgramHex ∧
      first.amountSats.val = e.weight.val := by
  simp only [buildManifest, bind_eq_ok, pure_eq_ok] at h
  obtain ⟨built, hbuilt, scriptSig, -, suffix, -, nonce, -, rfl⟩ := h
  obtain ⟨⟨ordered, hordered, hpays⟩, hsplit⟩ := allocateOutputs_ordered (buildCoinbase_eq_ok hbuilt).1
  rw [hpinned] at hordered
  obtain ⟨e, rest, rfl, hmatches, honly⟩ := orderEntitlements_pinned hordered
  obtain ⟨output, outputs, hfirst, -, houtputs⟩ := List.forall₂_cons_left_iff.mp hpays
  have hmem : output ∈ built.outputs := by
    rw [houtputs]
    exact mem_cons_self
  refine ⟨payoutOutput output 0, e, ?_, rfl, ?_, hmatches, honly, hfirst.recipientId,
    hfirst.orderKey, ?_, ?_⟩
  · rw [houtputs]
    rfl
  · exact (orderEntitlements_perm hordered).mem_iff.mp mem_cons_self
  · exact hfirst.program.trans (Hex.decode_encode _).symm
  · exact (hsplit.exact hsum hmem).trans (congrArg Unsigned.val hfirst.weight)

end QbitPrism
