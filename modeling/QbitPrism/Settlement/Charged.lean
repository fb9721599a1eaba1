import Mathlib
import QbitPrism.Settlement.Mode

/-!
# What the fanout fee leaves everyone

When nobody is pushed below the floor, each recipient of a chunk is charged once, and its net
amount and its fee add up to what it was owed.
-/
namespace QbitPrism
open MachineInt Checked SortBy ByteReader List

variable {recipients : List SettlementRecipient} {minOutputSats : U64} {charged : FanoutFeeRecipient}
  {byKey byKey' : List (String × FanoutFeeRecipient)} {feePolicy : FanoutFeeRatePolicy}
  {decision : SettlementModeDecision} {policyManifest : PayoutPolicyManifest}

theorem applyProportionalFanoutFee_charges {feeSats : U64} {decision : FanoutFeeDecision}
    (h : applyProportionalFanoutFee recipients feeSats minOutputSats = .ok decision)
    (hcarry : decision.carryForwardRecipients = []) {recipient : SettlementRecipient}
    (hrecipient : recipient ∈ recipients) (hnormal : normalizeRecipientP2mrProgram recipient = .ok recipient) :
    ∃ charged ∈ decision.payableRecipients, charged.Charges recipient := by
  obtain ⟨normalized, hnormalized, hdecided⟩ := applyProportionalFanoutFee_eq_ok h
  obtain ⟨_, hmem, hsame⟩ := exists_of_mapM_ok hnormalized hrecipient
  cases hnormal.symm.trans hsame
  have hpartition := hdecided.partition
  rw [hcarry, append_nil] at hpartition
  have hpair : (recipient.toPayoutIdentity, recipient.amountSats) ∈
      normalized.map fun r => (r.toPayoutIdentity, r.amountSats) := mem_map_of_mem hmem
  obtain ⟨charged, hcharged, heq⟩ := mem_map.mp (hpartition.mem_iff.mpr hpair)
  obtain ⟨hidentity, hgross⟩ := Prod.mk.inj heq
  exact ⟨charged, hcharged, hidentity, hgross, (hdecided.payable charged hcharged).1⟩

theorem applyProportionalFanoutFee_payable {feeSats : U64} {decision : FanoutFeeDecision}
    (h : applyProportionalFanoutFee recipients feeSats minOutputSats = .ok decision)
    (hcharged : charged ∈ decision.payableRecipients) :
    0 < charged.grossAmountSats.val ∧
      ∃ program : Bytes 32, charged.p2mrProgramHex = Hex.encode program.toList := by
  obtain ⟨normalized, hnormalized, hdecided⟩ := applyProportionalFanoutFee_eq_ok h
  refine ⟨?_, ?_⟩
  · simp only [applyProportionalFanoutFee, bind_eq_ok, require_eq_ok] at h
    obtain ⟨-, hfloor, -⟩ := h
    have hpositive : minOutputSats.val ≠ 0 := fun hzero => hfloor (Unsigned.ext (hzero.trans Unsigned.val_zero.symm))
    obtain ⟨hsplit, hnet⟩ := hdecided.payable charged hcharged
    omega
  · have hpair : (charged.toPayoutIdentity, charged.grossAmountSats) ∈
        normalized.map fun r => (r.toPayoutIdentity, r.amountSats) :=
      hdecided.partition.mem_iff.mp (mem_map_of_mem (mem_append_left _ hcharged))
    obtain ⟨r, hr, heq⟩ := mem_map.mp hpair
    obtain ⟨recipient, -, hnormal⟩ := mem_of_mapM_ok hnormalized hr
    obtain ⟨program, -, rfl⟩ := normalizeRecipientP2mrProgram_eq_ok.mp hnormal
    refine ⟨program, ?_⟩
    rw [← (Prod.mk.inj heq).1]

def KeysDistinct (byKey : List (String × FanoutFeeRecipient)) : Prop := (byKey.map Prod.fst).Nodup

theorem insertPayable_eq_ok {payable : List FanoutFeeRecipient} (hdistinct : KeysDistinct byKey)
    (h : payable.foldlM (fun byKey recipient => do
      let key := accountKey recipient.toPayoutIdentity
      require (key ∉ byKey.map Prod.fst) (settlementError "duplicate fanout fee recipient")
      pure ((key, recipient) :: byKey)) byKey = .ok byKey') :
    KeysDistinct byKey' ∧ ∀ x, x ∈ byKey' ↔
      x ∈ byKey ∨ ∃ r ∈ payable, x = (accountKey r.toPayoutIdentity, r) := by
  refine foldlM_ok_induction (fun done byKey' => KeysDistinct byKey' ∧ ∀ x, x ∈ byKey' ↔
    x ∈ byKey ∨ ∃ r ∈ done, x = (accountKey r.toPayoutIdentity, r)) ?_ ?_ h
  · exact ⟨hdistinct, by simp⟩
  · rintro done recipient acc acc' ⟨hdistinct, hmem⟩ hstep
    simp only [bind_eq_ok, require_eq_ok, pure_eq_ok] at hstep
    obtain ⟨-, hnew, rfl⟩ := hstep
    refine ⟨nodup_cons.mpr ⟨hnew, hdistinct⟩, ?_⟩
    intro x
    rw [mem_cons, hmem]
    simp only [mem_append, mem_singleton, or_and_right, exists_or, exists_eq_left]
    exact or_comm.trans or_assoc

structure ChunksCharged (chunks : List SettlementFanoutChunk)
    (byKey : List (String × FanoutFeeRecipient)) : Prop where
  distinct : KeysDistinct byKey
  charged : ∀ chunk ∈ chunks, ∀ r ∈ chunk.recipients, normalizeRecipientP2mrProgram r = .ok r →
    ∃ charged, (accountKey r.toPayoutIdentity, charged) ∈ byKey ∧ charged.Charges r
  entries : ∀ x ∈ byKey, x.1 = accountKey x.2.toPayoutIdentity ∧ 0 < x.2.grossAmountSats.val ∧
    ∃ program : Bytes 32, x.2.p2mrProgramHex = Hex.encode program.toList

theorem chargeChunk_charged {done : List SettlementFanoutChunk} {chunk : SettlementFanoutChunk}
    (hdone : ChunksCharged done byKey) (h : chargeChunk minOutputSats feePolicy byKey chunk = .ok byKey') :
    ChunksCharged (done ++ [chunk]) byKey' := by
  simp only [chargeChunk, bind_eq_ok, require_eq_ok] at h
  obtain ⟨fee, -, decision, hdecision, -, hcarry, hinsert⟩ := h
  obtain ⟨hdistinct, hmem⟩ := insertPayable_eq_ok hdone.distinct hinsert
  refine ⟨hdistinct, ?_, ?_⟩
  · intro c hc r hr hnormal
    rcases mem_append.mp hc with hc | hc
    · obtain ⟨charged, hcharged, hsplit⟩ := hdone.charged c hc r hr hnormal
      exact ⟨charged, (hmem _).mpr (.inl hcharged), hsplit⟩
    · cases mem_singleton.mp hc
      obtain ⟨charged, hpayable, hsplit⟩ := applyProportionalFanoutFee_charges hdecision hcarry hr hnormal
      refine ⟨charged, (hmem _).mpr (.inr ⟨charged, hpayable, ?_⟩), hsplit⟩
      rw [hsplit.identity]
  · intro x hx
    rcases (hmem x).mp hx with hx | ⟨charged, hcharged, rfl⟩
    · exact hdone.entries x hx
    · exact ⟨rfl, applyProportionalFanoutFee_payable hdecision hcharged⟩

theorem lookup_of_mem (hdistinct : KeysDistinct byKey) {key : String} (h : (key, charged) ∈ byKey) :
    byKey.lookup key = some charged := by
  induction byKey with
  | nil => exact absurd h not_mem_nil
  | cons entry rest ih =>
    obtain ⟨hnew, hdistinct⟩ := nodup_cons.mp hdistinct
    rcases mem_cons.mp h with rfl | hrest
    · exact lookup_cons_self
    · have hne : key ≠ entry.1 := by
        rintro rfl
        exact hnew (mem_map.mpr ⟨_, hrest, rfl⟩)
      rw [lookup_cons, beq_false_of_ne hne]
      exact ih hdistinct hrest

theorem mem_of_lookup {key : String} (h : byKey.lookup key = some charged) : (key, charged) ∈ byKey := by
  induction byKey with
  | nil => exact nomatch h
  | cons entry rest ih =>
    rw [lookup_cons] at h
    split at h
    · rename_i hkey
      cases h
      rw [beq_iff_eq.mp hkey]
      exact mem_cons_self
    · exact mem_cons_of_mem _ (ih h)

theorem fanoutFeesByKey_charged (h : fanoutFeesByKey policyManifest decision feePolicy = .ok byKey) :
    ChunksCharged decision.fanoutChunks byKey := by
  refine foldlM_ok_induction ChunksCharged ?_ ?_ h
  · exact ⟨nodup_nil, by simp, by simp⟩
  · intro done chunk acc acc' ih hstep
    exact chargeChunk_charged ih hstep

theorem fanoutFeesByKey_lookup (h : fanoutFeesByKey policyManifest decision feePolicy = .ok byKey)
    {r : SettlementRecipient} (hr : r ∈ decision.fanoutRecipients) (hnormal : normalizeRecipientP2mrProgram r = .ok r) :
    ∃ charged, byKey.lookup (accountKey r.toPayoutIdentity) = some charged ∧ charged.Charges r := by
  have hcharged := fanoutFeesByKey_charged h
  obtain ⟨chunk, hchunk, hmem⟩ := mem_flatMap.mp hr
  obtain ⟨charged, hcharge, hsplit⟩ := hcharged.charged chunk hchunk r hmem hnormal
  exact ⟨charged, lookup_of_mem hcharged.distinct hcharge, hsplit⟩

end QbitPrism
