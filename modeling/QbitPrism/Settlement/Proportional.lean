import Mathlib
import QbitPrism.Lib.LargestRemainder
import QbitPrism.Settlement.Fee

/-!
# The fanout fee is split exactly

Each round splits the whole fee over the recipients still in the fanout. While they are owed more
than the fee, the floor shares and the sats left over add up to it and nobody is charged more than
they are owed, so no check inside a round can fail. A round either settles or drops somebody.
-/
namespace QbitPrism
open MachineInt Checked SortBy ByteReader LargestRemainder List

/-- What one recipient is charged: its own amount, split into net and fee. -/
structure FanoutFeeRecipient.Charges (charged : FanoutFeeRecipient) (recipient : SettlementRecipient) :
    Prop where
  identity : charged.toPayoutIdentity = recipient.toPayoutIdentity
  gross : charged.grossAmountSats = recipient.amountSats
  split : charged.netAmountSats.val + charged.feeSats.val = charged.grossAmountSats.val

/-- The floor share of a recipient, with the remainder of its quota. -/
structure FeeShare (feeSats totalGrossSats : ℕ) (recipient : SettlementRecipient)
    (share : FanoutFeeRecipient × ℕ) : Prop where
  charges : share.1.Charges recipient
  fee : share.1.feeSats.val = feeSats * recipient.amountSats.val / totalGrossSats
  remainder : share.2 = feeSats * recipient.amountSats.val % totalGrossSats

variable {feeSats totalGrossSats : U64}

theorem feeShare_isOk (hfee : feeSats.val ≤ totalGrossSats.val) (recipient : SettlementRecipient) :
    ∃ share, feeShare feeSats totalGrossSats recipient = .ok share ∧
      FeeShare feeSats.val totalGrossSats.val recipient share := by
  have hshare : feeSats.val * recipient.amountSats.val / totalGrossSats.val ≤ recipient.amountSats.val :=
    quota_le_weight hfee
  have hamount := recipient.amountSats.isLt
  have hproduct : feeSats.val * recipient.amountSats.val < 2 ^ 128 := by
    have hlt := Nat.mul_lt_mul'' feeSats.isLt hamount
    exact hlt.trans_eq (by norm_num)
  obtain ⟨fee, hfeeVal⟩ : ∃ fee : U64, fee.val =
      feeSats.val * recipient.amountSats.val / totalGrossSats.val := ⟨⟨_, lt_of_le_of_lt hshare hamount⟩, rfl⟩
  obtain ⟨net, hnet⟩ : ∃ net : U64, recipient.amountSats.val = fee.val + net.val :=
    ⟨⟨recipient.amountSats.val - fee.val, by omega⟩, by show _ = _ + (_ - _); omega⟩
  refine ⟨({ recipient.toPayoutIdentity with
    grossAmountSats := recipient.amountSats
    feeSats := fee
    netAmountSats := net }, feeSats.val * recipient.amountSats.val % totalGrossSats.val), ?_, ?_⟩
  · simp only [feeShare, bind_eq_ok, okOr_eq_ok, pure_eq_ok, Unsigned.checkedMul_eq_some,
      Unsigned.checkedSub_eq_some, Unsigned.ofNat?_eq_some, U64.toU128_val]
    exact ⟨⟨_, hproduct⟩, rfl, fee, hfeeVal, net, hnet, rfl⟩
  · exact ⟨⟨rfl, rfl, (Nat.add_comm _ _).trans hnet.symm⟩, hfeeVal, rfl⟩

theorem chargeOneMore_isOk {charged : FanoutFeeRecipient}
    (h : charged.feeSats.val + 1 ≤ charged.grossAmountSats.val) :
    ∃ more, chargeOneMore charged = .ok more ∧ more.toPayoutIdentity = charged.toPayoutIdentity ∧
      more.grossAmountSats = charged.grossAmountSats ∧ more.feeSats.val = charged.feeSats.val + 1 ∧
      more.netAmountSats.val + more.feeSats.val = more.grossAmountSats.val := by
  have hgross := charged.grossAmountSats.isLt
  obtain ⟨fee, hfee⟩ : ∃ fee : U64, fee.val = charged.feeSats.val + 1 := ⟨⟨_, lt_of_le_of_lt h hgross⟩, rfl⟩
  obtain ⟨net, hnet⟩ : ∃ net : U64, charged.grossAmountSats.val = fee.val + net.val :=
    ⟨⟨charged.grossAmountSats.val - fee.val, by omega⟩, by show _ = _ + (_ - _); omega⟩
  refine ⟨{ charged with feeSats := fee, netAmountSats := net }, ?_, rfl, rfl, hfee,
    (Nat.add_comm _ _).trans hnet.symm⟩
  simp only [chargeOneMore, bind_eq_ok, okOr_eq_ok, pure_eq_ok, Unsigned.checkedAdd_eq_some,
    Unsigned.checkedSub_eq_some]
  exact ⟨fee, hfee, net, hnet, rfl⟩

instance : Std.TransCmp feeRemainderCmp := by
  have := transCmp_comap (fun a b : ℕ => compare b a) (Prod.snd : FanoutFeeRecipient × ℕ → ℕ)
  have := transCmp_comap PayoutIdentity.canonicalCmp
    fun share : FanoutFeeRecipient × ℕ => share.1.toPayoutIdentity
  exact inferInstanceAs (Std.TransCmp (compareLex (fun a b : FanoutFeeRecipient × ℕ => compare b.2 a.2)
    fun a b => a.1.toPayoutIdentity.canonicalCmp b.1.toPayoutIdentity))

theorem le_feeRemainderCmp {a b : FanoutFeeRecipient × ℕ} (h : Le feeRemainderCmp a b) : b.2 ≤ a.2 := by
  simp only [Le, feeRemainderCmp] at h
  by_contra hlt
  rw [(Nat.compare_eq_gt (a := b.2) (b := a.2)).mpr (by omega)] at h
  simp at h

/-- One round's charges: every recipient once, and the whole fee between them. -/
structure FeeAllocated (feeSats : ℕ) (recipients : List SettlementRecipient)
    (allocated : List FanoutFeeRecipient) : Prop where
  charged : (allocated.map fun r => (r.toPayoutIdentity, r.grossAmountSats)).Perm
    (recipients.map fun r => (r.toPayoutIdentity, r.amountSats))
  fees : (allocated.map fun r => r.feeSats.val).sum = feeSats
  split : ∀ r ∈ allocated, r.netAmountSats.val + r.feeSats.val = r.grossAmountSats.val

theorem chargeFirst_isOk {shares : List FanoutFeeRecipient}
    (hsplit : ∀ s ∈ shares, s.netAmountSats.val + s.feeSats.val = s.grossAmountSats.val) {count : ℕ}
    (hcount : count ≤ shares.length)
    (hfirst : ∀ s ∈ shares.take count, s.feeSats.val + 1 ≤ s.grossAmountSats.val) :
    ∃ charged, (shares.take count).mapM chargeOneMore = .ok charged ∧
      ((charged ++ shares.drop count).map fun r => (r.toPayoutIdentity, r.grossAmountSats)) =
        (shares.map fun r => (r.toPayoutIdentity, r.grossAmountSats)) ∧
      ((charged ++ shares.drop count).map fun r => r.feeSats.val).sum =
        (shares.map fun r => r.feeSats.val).sum + count ∧
      ∀ r ∈ charged ++ shares.drop count, r.netAmountSats.val + r.feeSats.val = r.grossAmountSats.val := by
  obtain ⟨charged, hcharged⟩ := mapM_isOk chargeOneMore fun s hs =>
    (chargeOneMore_isOk (hfirst s hs)).imp fun _ => And.left
  have hmore := (List.forall₂_and_left _ _).mpr ⟨hfirst, mapM_eq_ok.mp hcharged⟩
  have hstep : ∀ s more, s.feeSats.val + 1 ≤ s.grossAmountSats.val ∧ chargeOneMore s = .ok more →
      more.toPayoutIdentity = s.toPayoutIdentity ∧ more.grossAmountSats = s.grossAmountSats ∧
        more.feeSats.val = s.feeSats.val + 1 ∧
        more.netAmountSats.val + more.feeSats.val = more.grossAmountSats.val := by
    rintro s more ⟨hone, hok⟩
    obtain ⟨more', hok', hspec⟩ := chargeOneMore_isOk hone
    cases hok.symm.trans hok'
    exact hspec
  refine ⟨charged, hcharged, ?_, ?_, ?_⟩
  · rw [map_append, map_eq_of_forall₂ (fun r : FanoutFeeRecipient => (r.toPayoutIdentity,
      r.grossAmountSats)) _ hmore fun s more h => by rw [(hstep s more h).1, (hstep s more h).2.1],
      ← map_append, take_append_drop]
  · have hfees : charged.map (fun r => r.feeSats.val) = (shares.take count).map fun r => r.feeSats.val + 1 :=
      map_eq_of_forall₂ _ _ hmore fun s more h => (hstep s more h).2.2.1
    have hlength : (shares.take count).length = count := by
      rw [length_take, min_eq_left hcount]
    rw [map_append, sum_append, hfees, sum_map_add, map_const', sum_replicate,
      hlength, smul_eq_mul, Nat.mul_one, Nat.add_right_comm, ← sum_append, ← map_append,
      take_append_drop]
  · intro r hr
    rcases mem_append.mp hr with hr | hr
    · obtain ⟨s, -, hs⟩ := exists_of_forall₂ hmore.flip hr
      exact (hstep s r hs).2.2.2
    · exact hsplit r (mem_of_mem_drop hr)

variable {recipients : List SettlementRecipient}

theorem feeShares_first {shares : List (FanoutFeeRecipient × ℕ)} {feeSats totalGrossSats : ℕ}
    (hsum : totalGrossSats = (recipients.map fun r => r.amountSats.val).sum)
    (hfee : feeSats < totalGrossSats)
    (hall : List.Forall₂ (FeeShare feeSats totalGrossSats) recipients shares) :
    (shares.map fun s => s.1.feeSats.val).sum ≤ feeSats ∧
      feeSats - (shares.map fun s => s.1.feeSats.val).sum ≤ (sortBy feeRemainderCmp shares).length ∧
      ∀ s ∈ ((sortBy feeRemainderCmp shares).map Prod.fst).take
          (feeSats - (shares.map fun s => s.1.feeSats.val).sum),
        s.feeSats.val + 1 ≤ s.grossAmountSats.val := by
  have hpos : 0 < (recipients.map fun r => r.amountSats.val).sum := by omega
  have hfloors : shares.map (fun s => s.1.feeSats.val) = (recipients.map fun r => r.amountSats.val).map
      fun x => feeSats * x / (recipients.map fun r => r.amountSats.val).sum := by
    rw [map_map, ← hsum]
    exact map_eq_of_forall₂ _ _ hall fun r share h => h.fee
  have hremainders : shares.map Prod.snd = (recipients.map fun r => r.amountSats.val).map
      fun x => feeSats * x % (recipients.map fun r => r.amountSats.val).sum := by
    rw [map_map, ← hsum]
    exact map_eq_of_forall₂ _ _ hall fun r share h => h.remainder
  have hle := sum_quota_le feeSats hpos
  have hleft : _ * (feeSats - _) = _ := leftover_mul hpos
  rw [← hfloors] at hle hleft
  rw [← hremainders, ← ((sortBy_perm feeRemainderCmp shares).map Prod.snd).sum_eq] at hleft
  have hshare : ∀ s ∈ sortBy feeRemainderCmp shares, ∃ r, FeeShare feeSats totalGrossSats r s := by
    intro s hs
    obtain ⟨r, -, hr⟩ := exists_of_forall₂ hall.flip ((mem_sortBy _).mp hs)
    exact ⟨r, hr⟩
  have hdescending : ((sortBy feeRemainderCmp shares).map Prod.snd).Pairwise (· ≥ ·) :=
    pairwise_map.mpr ((sortBy_pairwise feeRemainderCmp shares).imp le_feeRemainderCmp)
  have hbelow : ∀ remainder ∈ (sortBy feeRemainderCmp shares).map Prod.snd,
      remainder < (recipients.map fun r => r.amountSats.val).sum := by
    intro remainder hremainder
    obtain ⟨s, hs, rfl⟩ := mem_map.mp hremainder
    obtain ⟨r, hr⟩ := hshare s hs
    rw [hr.remainder, hsum]
    exact Nat.mod_lt _ hpos
  obtain ⟨hcount, hfirst⟩ := take_pos (k := feeSats - (shares.map fun s => s.1.feeSats.val).sum)
    hdescending hbelow (by omega)
  refine ⟨hle, by simpa using hcount, ?_⟩
  intro charged hcharged
  rw [← map_take] at hcharged
  obtain ⟨s, hs, rfl⟩ := mem_map.mp hcharged
  obtain ⟨r, hr⟩ := hshare s (mem_of_mem_take hs)
  have hpositive : 0 < s.2 := by
    apply hfirst
    rw [← map_take]
    exact mem_map_of_mem hs
  rw [hr.fee, hr.charges.gross]
  exact quota_succ_le_weight hfee.le (by rw [← hr.remainder]; omega)

theorem allocateProportionalFee_isOk
    (hsum : totalGrossSats.val = (recipients.map fun r => r.amountSats.val).sum)
    (hfee : feeSats.val < totalGrossSats.val) :
    ∃ allocated, allocateProportionalFee recipients feeSats totalGrossSats = .ok allocated ∧
      FeeAllocated feeSats.val recipients allocated := by
  obtain ⟨shares, hshares⟩ : ∃ shares, recipients.mapM (feeShare feeSats totalGrossSats) = .ok shares :=
    mapM_isOk _ fun r _ => (feeShare_isOk hfee.le r).imp fun _ => And.left
  have hall : List.Forall₂ (FeeShare feeSats.val totalGrossSats.val) recipients shares := by
    refine (mapM_eq_ok.mp hshares).imp fun r share hshare => ?_
    obtain ⟨share', hshare', hspec⟩ := feeShare_isOk hfee.le r
    cases hshare.symm.trans hshare'
    exact hspec
  obtain ⟨hle, hcount, hfirst⟩ := feeShares_first hsum hfee hall
  have hsplit : ∀ s ∈ (sortBy feeRemainderCmp shares).map Prod.fst,
      s.netAmountSats.val + s.feeSats.val = s.grossAmountSats.val := by
    intro charged hcharged
    obtain ⟨s, hs, rfl⟩ := mem_map.mp hcharged
    obtain ⟨r, -, hr⟩ := exists_of_forall₂ hall.flip ((mem_sortBy _).mp hs)
    exact hr.charges.split
  obtain ⟨floorFeeSum, hfloors⟩ : ∃ sum : U64, sum.val = (shares.map fun s => s.1.feeSats.val).sum :=
    ⟨⟨_, lt_of_le_of_lt hle feeSats.isLt⟩, rfl⟩
  obtain ⟨remainderFeeSats, hremainder⟩ : ∃ left : U64, feeSats.val = floorFeeSum.val + left.val :=
    ⟨⟨feeSats.val - floorFeeSum.val, lt_of_le_of_lt (Nat.sub_le _ _) feeSats.isLt⟩, by
      show _ = _ + (_ - _)
      omega⟩
  rw [← hfloors, hremainder, Nat.add_sub_cancel_left] at hcount hfirst
  obtain ⟨charged, hcharged, hwho, hfees, hsplit⟩ := chargeFirst_isOk hsplit (by simpa using hcount) hfirst
  have hordered : ((sortBy feeRemainderCmp shares).map Prod.fst).Perm (shares.map Prod.fst) :=
    (sortBy_perm feeRemainderCmp shares).map _
  refine ⟨_, ?_, ?_, ?_, hsplit⟩
  · simp only [allocateProportionalFee, bind_eq_ok, okOr_eq_ok, pure_eq_ok, Unsigned.checkedSum_eq_some,
      Unsigned.checkedSub_eq_some, map_map]
    exact ⟨shares, hshares, floorFeeSum, hfloors, remainderFeeSats, hremainder, charged, hcharged, rfl⟩
  · rw [hwho]
    refine (hordered.map _).trans ?_
    rw [map_map, map_eq_of_forall₂ (fun r : SettlementRecipient => (r.toPayoutIdentity, r.amountSats)) _
      hall fun r share h => by
        show (share.1.toPayoutIdentity, share.1.grossAmountSats) = _
        rw [h.charges.identity, h.charges.gross]]
  · rw [hfees, (hordered.map _).sum_eq, map_map]
    show (shares.map fun s => s.1.feeSats.val).sum + _ = _
    omega

/-- What the rounds from these candidates on decide. -/
structure RoundsDecided (feeSats minOutputSats totalGrossSats : U64) (candidates : List SettlementRecipient)
    (carried : List FanoutFeeRecipient) (decision : FanoutFeeDecision) : Prop where
  total : decision.totalGrossSats = totalGrossSats
  requested : decision.requestedFeeSats = feeSats
  recipients : ((decision.payableRecipients ++ decision.carryForwardRecipients).map
      fun r => (r.toPayoutIdentity, r.grossAmountSats)).Perm
    (candidates.map (fun r => (r.toPayoutIdentity, r.amountSats)) ++
      carried.map fun r => (r.toPayoutIdentity, r.grossAmountSats))
  applied : decision.appliedFeeSats = if decision.payableRecipients = [] then 0 else feeSats
  fees : (decision.payableRecipients.map fun r => r.feeSats.val).sum = decision.appliedFeeSats.val
  payable : ∀ r ∈ decision.payableRecipients,
    r.netAmountSats.val + r.feeSats.val = r.grossAmountSats.val ∧ minOutputSats.val ≤ r.netAmountSats.val
  carriedForward : (∀ r ∈ carried, r.feeSats = 0 ∧ r.netAmountSats = r.grossAmountSats) →
    ∀ r ∈ decision.carryForwardRecipients, r.feeSats = 0 ∧ r.netAmountSats = r.grossAmountSats

variable {candidates : List SettlementRecipient}

variable {allocated : List FanoutFeeRecipient} {decision : FanoutFeeDecision}

theorem candidates_split {feeSats : ℕ} (h : FeeAllocated feeSats candidates allocated)
    (hdistinct : (candidates.map (·.toPayoutIdentity)).Nodup) (below : FanoutFeeRecipient → Bool) :
    (candidates.map fun r => (r.toPayoutIdentity, r.amountSats)).Perm
      ((candidates.filter fun r => r.toPayoutIdentity ∉
          (allocated.filter below).map (·.toPayoutIdentity)).map (fun r => (r.toPayoutIdentity, r.amountSats)) ++
        (allocated.filter below).map fun r => (r.toPayoutIdentity, r.grossAmountSats)) := by
  have hidentities : (allocated.map (·.toPayoutIdentity)).Nodup := by
    have hperm := h.charged.map Prod.fst
    rw [map_map, map_map] at hperm
    exact hperm.nodup_iff.mpr hdistinct
  have hbelow : allocated.filter below = allocated.filter fun r =>
      r.toPayoutIdentity ∈ (allocated.filter below).map (·.toPayoutIdentity) := by
    refine filter_congr fun r hr => ?_
    rw [Bool.eq_iff_iff, decide_eq_true_eq]
    constructor
    · intro hlow
      exact mem_map_of_mem (mem_filter.mpr ⟨hr, hlow⟩)
    · intro hkey
      obtain ⟨r', hr', hsame⟩ := mem_map.mp hkey
      obtain ⟨hmem, hlow⟩ := mem_filter.mp hr'
      rwa [inj_on_of_nodup_map hidentities hmem hr hsame] at hlow
  have hsplit := (filter_append_perm (fun r : SettlementRecipient =>
    decide (r.toPayoutIdentity ∉ (allocated.filter below).map (·.toPayoutIdentity))) candidates).map
      fun r => (r.toPayoutIdentity, r.amountSats)
  have hleft := h.charged.filter fun pair => pair.1 ∈ (allocated.filter below).map (·.toPayoutIdentity)
  rw [filter_map, filter_map] at hleft
  rw [map_append] at hsplit
  refine hsplit.symm.trans (List.Perm.append_left _ ?_)
  conv_rhs => rw [hbelow]
  refine List.Perm.trans (List.Perm.of_eq ?_) hleft.symm
  refine congrArg _ (filter_congr fun r _ => ?_)
  rw [decide_not, Bool.not_not]
  rfl

theorem sumAmounts_isOk (h : (recipients.map fun r => r.amountSats.val).sum < 2 ^ 64) :
    ∃ sum, sumAmounts recipients = .ok sum ∧ sum.val = (recipients.map fun r => r.amountSats.val).sum := by
  refine ⟨⟨_, h⟩, ?_, rfl⟩
  rw [sumAmounts, okOr_eq_ok, Unsigned.checkedSum_eq_some, map_map]
  rfl

variable {minOutputSats : U64} {carried : List FanoutFeeRecipient}

theorem FeeAllocated.settles (h : FeeAllocated feeSats.val candidates allocated) (hsome : candidates ≠ [])
    (hfloor : allocated.filter (fun r => r.netAmountSats.val < minOutputSats.val) = []) :
    RoundsDecided feeSats minOutputSats totalGrossSats candidates carried {
      totalGrossSats
      requestedFeeSats := feeSats
      appliedFeeSats := feeSats
      payableRecipients := sortBy fanoutFeeRecipientCmp
        (allocated.filter fun r => minOutputSats.val ≤ r.netAmountSats.val)
      carryForwardRecipients := sortBy fanoutFeeRecipientCmp carried } := by
  have habove : ∀ r ∈ allocated, minOutputSats.val ≤ r.netAmountSats.val := by
    intro r hr
    simpa using filter_eq_nil_iff.mp hfloor r hr
  have hpayable : (sortBy fanoutFeeRecipientCmp
      (allocated.filter fun r => minOutputSats.val ≤ r.netAmountSats.val)).Perm allocated := by
    rw [filter_eq_self.mpr fun r hr => decide_eq_true (habove r hr)]
    exact sortBy_perm _ _
  have hcharged : sortBy fanoutFeeRecipientCmp
      (allocated.filter fun r => minOutputSats.val ≤ r.netAmountSats.val) ≠ [] := by
    intro hnone
    rw [hnone] at hpayable
    cases hpayable.nil_eq
    exact hsome (map_eq_nil_iff.mp h.charged.nil_eq.symm)
  refine ⟨rfl, rfl, ?_, ?_, ?_, ?_, ?_⟩
  · rw [map_append]
    exact ((hpayable.map _).trans h.charged).append ((sortBy_perm _ carried).map _)
  · rw [if_neg hcharged]
  · rw [(hpayable.map _).sum_eq, h.fees]
  · intro r hr
    have hmem := hpayable.mem_iff.mp hr
    exact ⟨h.split r hmem, habove r hmem⟩
  · intro hcarried r hr
    exact hcarried r ((mem_sortBy _).mp hr)

theorem RoundsDecided.dropped {staying : List SettlementRecipient} {belowFloor : List FanoutFeeRecipient}
    (h : RoundsDecided feeSats minOutputSats totalGrossSats staying (carried ++ belowFloor.map fun r => carriedFanoutFeeRecipient r.toPayoutIdentity r.grossAmountSats) decision)
    (hsplit : (candidates.map fun r => (r.toPayoutIdentity, r.amountSats)).Perm (staying.map (fun r => (r.toPayoutIdentity, r.amountSats)) ++ belowFloor.map fun r => (r.toPayoutIdentity, r.grossAmountSats))) :
    RoundsDecided feeSats minOutputSats totalGrossSats candidates carried decision := by
  refine ⟨h.total, h.requested, h.recipients.trans ?_, h.applied, h.fees, h.payable, ?_⟩
  · rw [map_append, map_map]
    refine List.Perm.trans ?_ (hsplit.append_right _).symm
    rw [append_assoc]
    exact List.Perm.append_left _ perm_append_comm
  · intro hcarried
    refine h.carriedForward ?_
    intro r hr
    rcases mem_append.mp hr with hr | hr
    · exact hcarried r hr
    · obtain ⟨below, -, rfl⟩ := mem_map.mp hr
      exact ⟨rfl, rfl⟩

theorem chargeRounds_isOk {fuel : ℕ} (hfuel : candidates.length < fuel)
    (hdistinct : (candidates.map (·.toPayoutIdentity)).Nodup)
    (hsum : (candidates.map fun r => r.amountSats.val).sum < 2 ^ 64) :
    ∃ decision, chargeRounds feeSats minOutputSats totalGrossSats fuel candidates carried = .ok decision ∧
      RoundsDecided feeSats minOutputSats totalGrossSats candidates carried decision := by
  induction fuel generalizing candidates carried with
  | zero => exact absurd hfuel (Nat.not_lt_zero _)
  | succ fuel ih =>
    rw [chargeRounds]
    by_cases hempty : candidates = []
    · rw [if_pos hempty]
      refine ⟨_, rfl, ⟨rfl, rfl, ?_, rfl, rfl, by simp, fun hcarried => by simpa using hcarried⟩⟩
      rw [hempty]
      exact (sortBy_perm _ carried).map _
    · rw [if_neg hempty]
      obtain ⟨candidateSum, hcandidateSum, hval⟩ := sumAmounts_isOk hsum
      rw [hcandidateSum, ok_bind]
      by_cases hunpayable : candidateSum.val ≤ feeSats.val
      · rw [if_pos hunpayable]
        refine ⟨_, rfl, ⟨rfl, rfl, ?_, rfl, rfl, by simp, ?_⟩⟩
        · refine ((sortBy_perm _ _).map _).trans ?_
          rw [map_append, map_map]
          exact perm_append_comm
        · intro hcarried r hr
          rcases mem_append.mp ((mem_sortBy _).mp hr) with hr | hr
          · exact hcarried r hr
          · obtain ⟨candidate, -, rfl⟩ := mem_map.mp hr
            exact ⟨rfl, rfl⟩
      · rw [if_neg hunpayable]
        obtain ⟨allocated, hallocated, hround⟩ := allocateProportionalFee_isOk hval (not_le.mp hunpayable)
        rw [hallocated, ok_bind]
        dsimp only
        by_cases hfloor : allocated.filter (fun r => r.netAmountSats.val < minOutputSats.val) = []
        · rw [if_pos hfloor]
          exact ⟨_, rfl, hround.settles hempty hfloor⟩
        · rw [if_neg hfloor]
          have hsplit := candidates_split hround hdistinct fun r => r.netAmountSats.val < minOutputSats.val
          have hlength := hsplit.length_eq
          rw [length_append, length_map, length_map, length_map] at hlength
          have hdropped := length_pos_of_ne_nil hfloor
          have hfuel : (candidates.filter fun r => r.toPayoutIdentity ∉ (allocated.filter fun r =>
              r.netAmountSats.val < minOutputSats.val).map (·.toPayoutIdentity)).length < fuel := by
            omega
          obtain ⟨decision, hdecision, hdecided⟩ := ih hfuel
            (hdistinct.sublist (filter_sublist.map _))
            (lt_of_le_of_lt ((filter_sublist.map _).sum_le_sum fun _ _ => Nat.zero_le _) hsum)
          exact ⟨decision, hdecision, hdecided.dropped hsplit⟩

theorem validateRecipients_eq_ok {seen : List PayoutIdentity}
    (h : validateRecipients recipients = .ok seen) :
    (recipients.map (·.toPayoutIdentity)).Nodup ∧ ∀ r ∈ recipients, r.amountSats ≠ 0 := by
  suffices hseen : seen = (recipients.map (·.toPayoutIdentity)).reverse ∧
      (recipients.map (·.toPayoutIdentity)).Nodup ∧ ∀ r ∈ recipients, r.amountSats ≠ 0 from hseen.2
  refine foldlM_ok_induction (fun done seen => seen = (done.map (·.toPayoutIdentity)).reverse ∧
    (done.map (·.toPayoutIdentity)).Nodup ∧ ∀ r ∈ done, r.amountSats ≠ 0) ?_ ?_ h
  · simp
  · rintro done recipient _ seen' ⟨rfl, hnodup, hpositive⟩ hstep
    simp only [bind_eq_ok, require_eq_ok, pure_eq_ok, mem_reverse] at hstep
    obtain ⟨-, hamount, -, hnew, rfl⟩ := hstep
    refine ⟨by simp, ?_, ?_⟩
    · rw [map_append]
      exact hnodup.append (nodup_singleton _) (by simpa using hnew)
    · intro r hr
      rcases mem_append.mp hr with hr | hr
      · exact hpositive r hr
      · rw [mem_singleton.mp hr]
        exact hamount

theorem validateRecipients_isOk (hdistinct : (recipients.map (·.toPayoutIdentity)).Nodup)
    (hpositive : ∀ r ∈ recipients, r.amountSats ≠ 0) :
    ∃ seen, validateRecipients recipients = .ok seen := by
  suffices hrun : ∃ seen, validateRecipients recipients = .ok seen ∧
      ∀ identity ∈ seen, identity ∈ recipients.map (·.toPayoutIdentity) from hrun.imp fun _ => And.left
  refine foldlM_isOk _ recipients [] (fun done (seen : List PayoutIdentity) =>
    ∀ identity ∈ seen, identity ∈ done.map (·.toPayoutIdentity)) (by simp) ?_
  rintro done recipient seen ⟨rest, rfl⟩ hseen
  have hnew : recipient.toPayoutIdentity ∉ seen := by
    intro hmem
    rw [append_assoc, map_append] at hdistinct
    exact (disjoint_of_nodup_append hdistinct) (hseen _ hmem) (by simp)
  refine ⟨recipient.toPayoutIdentity :: seen, ?_, ?_⟩
  · rw [require_of (hpositive recipient (by simp)), ok_bind, require_of hnew, ok_bind]
    rfl
  · rw [map_append, forall_mem_cons]
    exact ⟨by simp, fun identity hidentity => mem_append_left _ (hseen identity hidentity)⟩

/-- Everyone is charged or carried forward, and the whole fee is paid by those who are charged. -/
structure FeeDecided (feeSats minOutputSats : U64) (recipients : List SettlementRecipient)
    (decision : FanoutFeeDecision) : Prop where
  requested : decision.requestedFeeSats = feeSats
  partition : ((decision.payableRecipients ++ decision.carryForwardRecipients).map
      fun r => (r.toPayoutIdentity, r.grossAmountSats)).Perm
    (recipients.map fun r => (r.toPayoutIdentity, r.amountSats))
  gross : ((decision.payableRecipients ++ decision.carryForwardRecipients).map
    fun r => r.grossAmountSats.val).sum = decision.totalGrossSats.val
  applied : decision.appliedFeeSats = if decision.payableRecipients = [] then 0 else feeSats
  fees : (decision.payableRecipients.map fun r => r.feeSats.val).sum = decision.appliedFeeSats.val
  payable : ∀ r ∈ decision.payableRecipients,
    r.netAmountSats.val + r.feeSats.val = r.grossAmountSats.val ∧ minOutputSats.val ≤ r.netAmountSats.val
  carried : ∀ r ∈ decision.carryForwardRecipients, r.feeSats = 0 ∧ r.netAmountSats = r.grossAmountSats

theorem applyProportionalFanoutFee_of_checked {normalized : List SettlementRecipient}
    (hfloor : minOutputSats ≠ 0) (hsome : recipients ≠ [])
    (hnormalized : recipients.mapM normalizeRecipientP2mrProgram = .ok normalized)
    (hdistinct : (normalized.map (·.toPayoutIdentity)).Nodup)
    (hpositive : ∀ r ∈ normalized, r.amountSats ≠ 0)
    (hsum : (normalized.map fun r => r.amountSats.val).sum < 2 ^ 64) :
    ∃ decision, applyProportionalFanoutFee recipients feeSats minOutputSats = .ok decision ∧
      FeeDecided feeSats minOutputSats normalized decision := by
  have hperm := sortBy_perm canonicalRecipientCmp normalized
  have hcandidates : ((sortBy canonicalRecipientCmp normalized).map (·.toPayoutIdentity)).Nodup :=
    (hperm.map _).nodup_iff.mpr hdistinct
  obtain ⟨seen, hseen⟩ := validateRecipients_isOk hcandidates fun r hr => hpositive r (hperm.mem_iff.mp hr)
  have htotal := (hperm.map fun r => r.amountSats.val).sum_eq
  obtain ⟨total, htotalOk, hval⟩ := sumAmounts_isOk (htotal ▸ hsum)
  obtain ⟨decision, hdecision, hrounds⟩ : ∃ decision,
      chargeRounds feeSats minOutputSats total ((sortBy canonicalRecipientCmp normalized).length + 1)
        (sortBy canonicalRecipientCmp normalized) [] = .ok decision ∧
      RoundsDecided feeSats minOutputSats total (sortBy canonicalRecipientCmp normalized) [] decision :=
    chargeRounds_isOk (Nat.lt_succ_self _) hcandidates (htotal ▸ hsum)
  have hpartition : ((decision.payableRecipients ++ decision.carryForwardRecipients).map
      fun r => (r.toPayoutIdentity, r.grossAmountSats)).Perm
      (normalized.map fun r => (r.toPayoutIdentity, r.amountSats)) := by
    refine hrounds.recipients.trans ?_
    rw [map_nil, append_nil]
    exact hperm.map _
  refine ⟨decision, ?_, hrounds.requested, hpartition, ?_, hrounds.applied, hrounds.fees, hrounds.payable,
    hrounds.carriedForward (by simp)⟩
  · rw [applyProportionalFanoutFee, require_of hfloor, ok_bind, require_of hsome, ok_bind, hnormalized, ok_bind]
    dsimp only
    rw [hseen, ok_bind, htotalOk, ok_bind]
    exact hdecision
  · have hgross := (hpartition.map fun pair => pair.2.val).sum_eq
    rw [map_map, map_map] at hgross
    rw [hrounds.total, hval, htotal]
    exact hgross

theorem applyProportionalFanoutFee_eq_ok
    (h : applyProportionalFanoutFee recipients feeSats minOutputSats = .ok decision) :
    ∃ normalized, recipients.mapM normalizeRecipientP2mrProgram = .ok normalized ∧
      FeeDecided feeSats minOutputSats normalized decision := by
  have hok := h
  simp only [applyProportionalFanoutFee, bind_eq_ok, require_eq_ok, okOr_eq_ok, sumAmounts] at h
  obtain ⟨-, hfloor, -, hsome, normalized, hnormalized, seen, hseen, total, htotal, -⟩ := h
  have hperm := sortBy_perm canonicalRecipientCmp normalized
  obtain ⟨hdistinct, hpositive⟩ := validateRecipients_eq_ok hseen
  have hsum := Unsigned.checkedSum_eq_some.mp htotal
  rw [map_map, (hperm.map _).sum_eq] at hsum
  obtain ⟨decision', hdecision', hdecided⟩ : ∃ decision,
      applyProportionalFanoutFee recipients feeSats minOutputSats = .ok decision ∧
      FeeDecided feeSats minOutputSats normalized decision :=
    applyProportionalFanoutFee_of_checked hfloor hsome hnormalized ((hperm.map _).nodup_iff.mp hdistinct)
      (fun r hr => hpositive r (hperm.mem_iff.mpr hr)) (hsum ▸ total.isLt)
  cases hok.symm.trans hdecision'
  exact ⟨normalized, hnormalized, hdecided⟩

/-- The fee is split exactly over those who can pay it, everyone else is carried forward whole, and
valid recipients with distinct keys always get a decision. -/
theorem applyProportionalFanoutFee_exact (recipients : List SettlementRecipient)
    (feeSats minOutputSats : U64) :
    (∀ decision, applyProportionalFanoutFee recipients feeSats minOutputSats = .ok decision →
      ∃ normalized, recipients.mapM normalizeRecipientP2mrProgram = .ok normalized ∧
        FeeDecided feeSats minOutputSats normalized decision) ∧
    ∀ normalized, recipients.mapM normalizeRecipientP2mrProgram = .ok normalized →
      (normalized.map (·.toPayoutIdentity)).Nodup → (∀ r ∈ normalized, r.amountSats ≠ 0) →
      (normalized.map fun r => r.amountSats.val).sum < 2 ^ 64 → minOutputSats ≠ 0 → recipients ≠ [] →
      ∃ decision, applyProportionalFanoutFee recipients feeSats minOutputSats = .ok decision := by
  refine ⟨fun decision h => applyProportionalFanoutFee_eq_ok h, ?_⟩
  intro normalized hnormalized hdistinct hpositive hsum hfloor hsome
  obtain ⟨decision, hdecision, -⟩ :=
    applyProportionalFanoutFee_of_checked hfloor hsome hnormalized hdistinct hpositive hsum
  exact ⟨decision, hdecision⟩

def feePayer (name : String) (byte : UInt8) (amountSats : U64) : SettlementRecipient where
  recipientId := name
  orderKey := name
  p2mrProgramHex := Hex.encode (List.replicate 32 byte)
  amountSats

/-- A fee of 100 would leave the third recipient below the floor of 50. -/
def feePayers : List SettlementRecipient := [feePayer "a" 1 5000, feePayer "b" 2 3000, feePayer "c" 3 50]

theorem applyProportionalFanoutFee_exact_three :
    ∃ decision normalized, applyProportionalFanoutFee feePayers 100 50 = .ok decision ∧
      feePayers.mapM normalizeRecipientP2mrProgram = .ok normalized ∧
      FeeDecided 100 50 normalized decision := by
  have hok : (applyProportionalFanoutFee feePayers 100 50).isOk = true := by decide +kernel
  obtain ⟨decision, hdecision⟩ := exists_of_isOk hok
  obtain ⟨normalized, hnormalized, hdecided⟩ :=
    (applyProportionalFanoutFee_exact feePayers 100 50).1 decision hdecision
  exact ⟨decision, normalized, hdecision, hnormalized, hdecided⟩

end QbitPrism
