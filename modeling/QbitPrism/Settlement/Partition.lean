import Mathlib
import QbitPrism.Settlement.Mode

/-!
# The settlement partition

The downward search of `select_direct_count` finds the largest number of direct outputs that fits
the coinbase, and fails only when not even all fanouts fit. Around it, the partition takes the
recipients of highest priority, loses nobody, and does not depend on the order of the input.
-/
namespace QbitPrism
open MachineInt Checked SortBy List

/-- The coinbase outputs when `directs` of `total` recipients are paid directly. -/
def outputsNeeded (config : SettlementModeConfig) (total directs : ℕ) : ℕ :=
  config.reservedCoinbaseOutputs + directs +
    (total - directs + (config.maxFanoutRecipientsPerTransaction - 1)) /
      config.maxFanoutRecipientsPerTransaction

structure ConfigChecked (config : SettlementModeConfig) : Prop where
  outputs : config.maxCoinbaseSettlementOutputs ≤ maxCoinbaseSettlementOutputs
  chunk_pos : 0 < config.maxFanoutRecipientsPerTransaction
  chunk : config.maxFanoutRecipientsPerTransaction ≤ maxCtvFanoutRecipientsPerTransaction
  reserved : config.reservedCoinbaseOutputs ≤ config.maxCoinbaseSettlementOutputs

variable {config : SettlementModeConfig}

theorem validateConfig_eq_ok {u : Unit} (h : validateConfig config = .ok u) :
    ConfigChecked config := by
  simp only [validateConfig, bind_eq_ok, settlementRequire_eq_ok] at h
  obtain ⟨-, -, -, houtputs, -, -, -, hpos, -, hchunk, -, -, -, -, hreserved⟩ := h
  exact ⟨houtputs, Nat.pos_of_ne_zero hpos, hchunk, hreserved⟩

section Counts
variable {config : SettlementModeConfig} {total pinned : ℕ}

theorem fanoutChunkCount_eq_ok {recipientCount chunkLen count : ℕ} (hpos : 0 < chunkLen)
    (h : fanoutChunkCount recipientCount chunkLen = .ok count) :
    count = (recipientCount + (chunkLen - 1)) / chunkLen := by
  unfold fanoutChunkCount at h
  split_ifs at h with hzero
  · cases h
    rw [hzero, Nat.zero_add, Nat.div_eq_of_lt (by omega)]
  · simp only [checkedCount, bind_eq_ok, pure_eq_ok] at h
    obtain ⟨-, ⟨-, -, rfl⟩, rfl⟩ := h
    rfl

section
variable (hpos : 0 < config.maxFanoutRecipientsPerTransaction)
include hpos

theorem coinbaseOutputCount_eq_ok {directCount outputs : ℕ}
    (h : coinbaseOutputCount total pinned config directCount = .ok outputs) :
    pinned + directCount ≤ total ∧ outputs = outputsNeeded config total (pinned + directCount) := by
  simp only [coinbaseOutputCount, checkedCount, bind_eq_ok, settlementRequire_eq_ok, pure_eq_ok] at h
  obtain ⟨-, hle, chunks, hchunks, -, -, rfl⟩ := h
  refine ⟨hle, ?_⟩
  rw [outputsNeeded, fanoutChunkCount_eq_ok hpos hchunks, Nat.sub_sub, Nat.add_assoc config.reservedCoinbaseOutputs]

theorem coinbaseOutputCount_isOk {directCount : ℕ} (hle : pinned + directCount ≤ total)
    (hsmall : config.reservedCoinbaseOutputs + 2 * total + config.maxFanoutRecipientsPerTransaction < 2 ^ 64) :
    ∃ outputs, coinbaseOutputCount total pinned config directCount = .ok outputs := by
  obtain ⟨chunks, hchunks, hcount⟩ : ∃ chunks, fanoutChunkCount (total - pinned - directCount)
      config.maxFanoutRecipientsPerTransaction = .ok chunks ∧ chunks ≤ total := by
    unfold fanoutChunkCount
    split_ifs with hzero
    · exact ⟨0, rfl, Nat.zero_le _⟩
    · rw [checkedCount, settlementRequire_of (by omega)]
      refine ⟨_, rfl, (Nat.div_le_of_le_mul ?_).trans (Nat.sub_le total (pinned + directCount))⟩
      obtain ⟨others, hothers⟩ := Nat.exists_eq_succ_of_ne_zero hzero
      have := Nat.le_mul_of_pos_left others hpos
      rw [← Nat.sub_sub, hothers, Nat.mul_succ]
      omega
  use config.reservedCoinbaseOutputs + pinned + directCount + chunks
  rw [coinbaseOutputCount, settlementRequire_of hle, ok_bind, hchunks, ok_bind, checkedCount,
    settlementRequire_of (by omega)]
  rfl

theorem outputsNeeded_mono {few many : ℕ} (hle : few ≤ many) (htotal : many ≤ total) :
    outputsNeeded config total few ≤ outputsNeeded config total many := by
  have hshift : (total - few + (config.maxFanoutRecipientsPerTransaction - 1)) /
        config.maxFanoutRecipientsPerTransaction ≤
      (total - many + (config.maxFanoutRecipientsPerTransaction - 1)) /
        config.maxFanoutRecipientsPerTransaction + (many - few) := by
    rw [← Nat.add_mul_div_right _ _ hpos]
    refine Nat.div_le_div_right ?_
    have := Nat.le_mul_of_pos_right (many - few) hpos
    omega
  unfold outputsNeeded
  omega

theorem tryDirectCounts_eq_ok {top count : ℕ} (h : tryDirectCounts total pinned config top = .ok count) :
    count ≤ top ∧ pinned + count ≤ total ∧
      outputsNeeded config total (pinned + count) ≤ config.maxCoinbaseSettlementOutputs ∧
      ∀ more, count < more → more ≤ top →
        config.maxCoinbaseSettlementOutputs < outputsNeeded config total (pinned + more) := by
  induction top with
  | zero =>
    simp only [tryDirectCounts, bind_eq_ok, settlementRequire_eq_ok, pure_eq_ok] at h
    obtain ⟨outputs, houtputs, -, hfits, rfl⟩ := h
    obtain ⟨hle, rfl⟩ := coinbaseOutputCount_eq_ok hpos houtputs
    exact ⟨le_rfl, hle, hfits, fun more hmore hnone => absurd hmore (by omega)⟩
  | succ top ih =>
    simp only [tryDirectCounts, bind_eq_ok] at h
    obtain ⟨outputs, houtputs, h⟩ := h
    obtain ⟨hle, rfl⟩ := coinbaseOutputCount_eq_ok hpos houtputs
    split_ifs at h with hfits
    · cases h
      exact ⟨le_rfl, hle, hfits, fun more hmore htop => absurd hmore (by omega)⟩
    · obtain ⟨hcount, htotal, hfit, hlargest⟩ := ih h
      refine ⟨by omega, htotal, hfit, ?_⟩
      intro more hmore htop
      rcases Nat.lt_or_eq_of_le htop with hbelow | rfl
      · exact hlargest more hmore (by omega)
      · omega

end

theorem tryDirectCounts_isOk {top : ℕ} (hconfig : ConfigChecked config) (htop : pinned + top ≤ total)
    (hpinned : pinned ≤ 1) (hfits : outputsNeeded config total pinned ≤ config.maxCoinbaseSettlementOutputs) :
    ∃ count, tryDirectCounts total pinned config top = .ok count := by
  have hsmall : config.reservedCoinbaseOutputs + 2 * total + config.maxFanoutRecipientsPerTransaction < 2 ^ 64 := by
    -- the fanouts of a coinbase that fits carry at most 500 chunks of 1160
    have hchunks : (total - pinned + (config.maxFanoutRecipientsPerTransaction - 1)) /
        config.maxFanoutRecipientsPerTransaction ≤ 500 := by
      have := hconfig.outputs
      unfold outputsNeeded at hfits
      simp only [maxCoinbaseSettlementOutputs] at this
      omega
    have hcarried := Nat.lt_mul_div_succ (total - pinned + (config.maxFanoutRecipientsPerTransaction - 1))
      hconfig.chunk_pos
    have hbound : config.maxFanoutRecipientsPerTransaction *
        ((total - pinned + (config.maxFanoutRecipientsPerTransaction - 1)) /
          config.maxFanoutRecipientsPerTransaction + 1) ≤ 1160 * 501 :=
      Nat.mul_le_mul hconfig.chunk (by omega)
    have hreserved := hconfig.reserved
    have houtputs := hconfig.outputs
    have hchunk := hconfig.chunk
    simp only [maxCoinbaseSettlementOutputs, maxCtvFanoutRecipientsPerTransaction] at houtputs hchunk
    omega
  induction top with
  | zero =>
    obtain ⟨outputs, houtputs⟩ := coinbaseOutputCount_isOk hconfig.chunk_pos htop hsmall
    obtain ⟨-, rfl⟩ := coinbaseOutputCount_eq_ok hconfig.chunk_pos houtputs
    use 0
    simp only [tryDirectCounts, houtputs, ok_bind]
    exact settlementRequire_of hfits ▸ rfl
  | succ top ih =>
    obtain ⟨outputs, houtputs⟩ := coinbaseOutputCount_isOk hconfig.chunk_pos htop hsmall
    obtain ⟨count, hcount⟩ := ih (by omega)
    rw [tryDirectCounts, houtputs, ok_bind]
    split_ifs
    · exact ⟨_, rfl⟩
    · exact ⟨count, hcount⟩

end Counts

instance : Std.TransCmp canonicalRecipientCmp :=
  transCmp_comap PayoutIdentity.canonicalCmp SettlementRecipient.toPayoutIdentity

instance : Std.TransCmp directPriorityCmp := by
  have := transCmp_comap (fun a b : ℕ => compare b a) fun r : SettlementRecipient => r.amountSats.val
  exact inferInstanceAs (Std.TransCmp (compareLex
    (fun a b : SettlementRecipient => compare b.amountSats.val a.amountSats.val) canonicalRecipientCmp))

/-- A larger amount, or the same amount and an earlier key. -/
def Outranks (a b : SettlementRecipient) : Prop :=
  b.amountSats.val < a.amountSats.val ∨
    a.amountSats.val = b.amountSats.val ∧ a.toPayoutIdentity.canonicalCmp b.toPayoutIdentity = .lt

theorem outranks_of_le {a b : SettlementRecipient} (h : Le directPriorityCmp a b)
    (hne : a.toPayoutIdentity ≠ b.toPayoutIdentity) : Outranks a b := by
  unfold Le directPriorityCmp canonicalRecipientCmp at h
  cases hamounts : compare b.amountSats.val a.amountSats.val with
  | lt => exact .inl (Nat.compare_eq_lt.mp hamounts)
  | gt => simp [hamounts] at h
  | eq =>
    refine .inr ⟨(Nat.compare_eq_eq.mp hamounts).symm, ?_⟩
    rw [hamounts] at h
    cases hkeys : a.toPayoutIdentity.canonicalCmp b.toPayoutIdentity with
    | lt => rfl
    | eq => exact absurd (Std.LawfulEqCmp.eq_of_compare hkeys) hne
    | gt => simp [hkeys] at h

theorem mem_drop_iff_of_nodup {α : Type*} {xs : List α} (h : xs.Nodup) (n : ℕ) {x : α} :
    x ∈ xs.drop n ↔ x ∈ xs ∧ x ∉ xs.take n := by
  have hdisjoint : List.Disjoint (xs.take n) (xs.drop n) := disjoint_take_drop h le_rfl
  constructor
  · intro hx
    exact ⟨mem_of_mem_drop hx, fun htake => hdisjoint htake hx⟩
  · rintro ⟨hx, hnot⟩
    rw [← take_append_drop n xs] at hx
    exact (mem_append.mp hx).resolve_left hnot

/-- Those the floor admits beside the pinned one, in order of priority. -/
def directCandidates (canonical : List SettlementRecipient) (directFloorSats : U64)
    (pinnedKey : Option PayoutIdentity) : List SettlementRecipient :=
  sortBy directPriorityCmp (canonical.filter fun r =>
    directFloorSats.val ≤ r.amountSats.val ∧ pinnedKey ≠ some r.toPayoutIdentity)

/-- The direct recipients when the first `directCount` candidates are selected. -/
def directPart (canonical : List SettlementRecipient) (directFloorSats : U64)
    (pinnedKey : Option PayoutIdentity) (directCount : ℕ) : List SettlementRecipient :=
  canonical.filter fun r => paidDirectly pinnedKey
    ((directCandidates canonical directFloorSats pinnedKey).take directCount) r

def fanoutPart (canonical : List SettlementRecipient) (directFloorSats : U64)
    (pinnedKey : Option PayoutIdentity) (directCount : ℕ) : List SettlementRecipient :=
  canonical.filter fun r => ¬paidDirectly pinnedKey
    ((directCandidates canonical directFloorSats pinnedKey).take directCount) r

section Selection
variable {canonical : List SettlementRecipient} {directFloorSats : U64} {pinnedKey : Option PayoutIdentity}
  (directCount : ℕ)

theorem parts_perm : (directPart canonical directFloorSats pinnedKey directCount ++
    fanoutPart canonical directFloorSats pinnedKey directCount).Perm canonical :=
  filter_not_perm _ canonical

theorem parts_length : (directPart canonical directFloorSats pinnedKey directCount).length +
    (fanoutPart canonical directFloorSats pinnedKey directCount).length = canonical.length := by
  rw [← length_append, (parts_perm directCount).length_eq]

variable {r : SettlementRecipient}

theorem mem_directCandidates :
    r ∈ directCandidates canonical directFloorSats pinnedKey ↔
      r ∈ canonical ∧ directFloorSats.val ≤ r.amountSats.val ∧ pinnedKey ≠ some r.toPayoutIdentity := by
  rw [directCandidates, mem_sortBy, mem_filter, decide_eq_true_iff]

variable (hdistinct : (canonical.map (·.toPayoutIdentity)).Nodup)
include hdistinct

theorem directCandidates_nodup : (directCandidates canonical directFloorSats pinnedKey).Nodup :=
  (sortBy_perm _ _).nodup_iff.mpr (hdistinct.of_map.filter _)

theorem mem_directPart :
    r ∈ directPart canonical directFloorSats pinnedKey directCount ↔
      r ∈ canonical ∧ (pinnedKey = some r.toPayoutIdentity ∨
        r ∈ (directCandidates canonical directFloorSats pinnedKey).take directCount) := by
  rw [directPart, mem_filter, decide_eq_true_iff, paidDirectly]
  refine and_congr_right fun hr => or_congr_right ⟨?_, mem_map_of_mem⟩
  intro hkey
  obtain ⟨s, hs, hidentity⟩ := mem_map.mp hkey
  have hcanonical := (mem_directCandidates.mp (mem_of_mem_take hs)).1
  exact inj_on_of_nodup_map hdistinct hcanonical hr hidentity ▸ hs

theorem mem_fanoutPart :
    r ∈ fanoutPart canonical directFloorSats pinnedKey directCount ↔
      r ∈ canonical ∧ pinnedKey ≠ some r.toPayoutIdentity ∧
        r ∉ (directCandidates canonical directFloorSats pinnedKey).take directCount := by
  have hdirect : r ∈ directPart canonical directFloorSats pinnedKey directCount ↔ _ :=
    mem_directPart directCount hdistinct
  rw [directPart, mem_filter, decide_eq_true_iff] at hdirect
  rw [fanoutPart, mem_filter, decide_eq_true_iff]
  refine and_congr_right fun hr => ?_
  simp only [hr, true_and] at hdirect
  rw [hdirect, not_or]

theorem pinned_length (hpinned : ∀ key ∈ pinnedKey, key ∈ canonical.map (·.toPayoutIdentity)) :
    (canonical.filter fun r => pinnedKey = some r.toPayoutIdentity).length =
      if pinnedKey.isSome then 1 else 0 := by
  cases pinnedKey with
  | none => simp
  | some key =>
    obtain ⟨r, hr, rfl⟩ := mem_map.mp (hpinned key rfl)
    have hone : (canonical.filter fun s => some r.toPayoutIdentity = some s.toPayoutIdentity).Perm [r] := by
      refine (perm_ext_iff_of_nodup (hdistinct.of_map.filter _) (nodup_singleton r)).mpr ?_
      intro s
      rw [mem_filter, decide_eq_true_iff, mem_singleton, Option.some.injEq]
      constructor
      · rintro ⟨hs, hkey⟩
        exact inj_on_of_nodup_map hdistinct hs hr hkey.symm
      · rintro rfl
        exact ⟨hr, rfl⟩
    rw [hone.length_eq]
    rfl

theorem directPart_perm : (directPart canonical directFloorSats pinnedKey directCount).Perm
    ((canonical.filter fun r => pinnedKey = some r.toPayoutIdentity) ++
      (directCandidates canonical directFloorSats pinnedKey).take directCount) := by
  have hnodup := hdistinct.of_map
  refine (perm_ext_iff_of_nodup (hnodup.filter _) (List.Nodup.append (hnodup.filter _)
    ((take_sublist _ _).nodup (directCandidates_nodup hdistinct)) ?_)).mpr ?_
  · intro r hpinned hselected
    have hother := (mem_directCandidates.mp (mem_of_mem_take hselected)).2.2
    exact hother (of_decide_eq_true (mem_filter.mp hpinned).2)
  · intro r
    rw [← directPart, mem_directPart directCount hdistinct, mem_append, mem_filter, decide_eq_true_iff]
    constructor
    · rintro ⟨hr, hpinned | hselected⟩
      · exact .inl ⟨hr, hpinned⟩
      · exact .inr hselected
    · rintro (⟨hr, hpinned⟩ | hselected)
      · exact ⟨hr, .inl hpinned⟩
      · exact ⟨(mem_directCandidates.mp (mem_of_mem_take hselected)).1, .inr hselected⟩

theorem directPart_length (hpinned : ∀ key ∈ pinnedKey, key ∈ canonical.map (·.toPayoutIdentity))
    (hcount : directCount ≤ (directCandidates canonical directFloorSats pinnedKey).length) :
    (directPart canonical directFloorSats pinnedKey directCount).length =
      (if pinnedKey.isSome then 1 else 0) + directCount := by
  rw [(directPart_perm directCount hdistinct).length_eq, length_append, pinned_length hdistinct hpinned,
    length_take, Nat.min_eq_left hcount]

theorem eligible_fanout_perm :
    ((fanoutPart canonical directFloorSats pinnedKey directCount).filter
        fun r => directFloorSats.val ≤ r.amountSats.val).Perm
      ((directCandidates canonical directFloorSats pinnedKey).drop directCount) := by
  have hcandidates : (directCandidates canonical directFloorSats pinnedKey).Nodup :=
    directCandidates_nodup hdistinct
  refine (perm_ext_iff_of_nodup ((hdistinct.of_map.filter _).filter _)
    ((drop_sublist _ _).nodup hcandidates)).mpr ?_
  intro r
  rw [← fanoutPart, mem_drop_iff_of_nodup hcandidates, mem_filter, decide_eq_true_iff,
    mem_fanoutPart directCount hdistinct, mem_directCandidates]
  constructor
  · rintro ⟨⟨hr, hpinned, hselected⟩, hfloor⟩
    exact ⟨⟨hr, hfloor, hpinned⟩, hselected⟩
  · rintro ⟨⟨hr, hfloor, hpinned⟩, hselected⟩
    exact ⟨⟨hr, hpinned, hselected⟩, hfloor⟩

theorem directPart_priority (hr : r ∈ directPart canonical directFloorSats pinnedKey directCount)
    (hpinned : pinnedKey ≠ some r.toPayoutIdentity) :
    directFloorSats.val ≤ r.amountSats.val ∧
      ∀ f ∈ fanoutPart canonical directFloorSats pinnedKey directCount,
        directFloorSats.val ≤ f.amountSats.val → Outranks r f := by
  obtain ⟨hcanonical, hdirect⟩ := (mem_directPart directCount hdistinct).mp hr
  have hselected := hdirect.resolve_left hpinned
  refine ⟨(mem_directCandidates.mp (mem_of_mem_take hselected)).2.1, ?_⟩
  intro f hf hfloor
  have hdrop := (eligible_fanout_perm directCount hdistinct).mem_iff.mp
    (mem_filter.mpr ⟨hf, decide_eq_true hfloor⟩)
  have hsorted := sortBy_pairwise directPriorityCmp (canonical.filter fun r =>
    directFloorSats.val ≤ r.amountSats.val ∧ pinnedKey ≠ some r.toPayoutIdentity)
  rw [← take_append_drop directCount (sortBy _ _)] at hsorted
  refine outranks_of_le ((pairwise_append.mp hsorted).2.2 r hselected f hdrop) ?_
  intro hkey
  obtain ⟨hfcanonical, -, hnot⟩ := (mem_fanoutPart directCount hdistinct).mp hf
  exact hnot (inj_on_of_nodup_map hdistinct hcanonical hfcanonical hkey ▸ hselected)

end Selection

variable {recipients : List SettlementRecipient}

theorem sumAmounts_eq_ok {sum : U64} :
    sumAmounts recipients = .ok sum ↔ sum.val = (recipients.map fun r => r.amountSats.val).sum := by
  rw [sumAmounts, okOr_eq_ok, Unsigned.checkedSum_eq_some, map_map]
  rfl

def settleParts (config : SettlementModeConfig) (directFloorSats : U64) (pinnedDirectCount : ℕ)
    (totalAmountSats : U64) (directRecipients fanoutRecipients : List SettlementRecipient) :
    Except PrismError SettlementModeDecision := do
  let directAmountSats ← sumAmounts directRecipients
  let fanoutAmountSats ← sumAmounts fanoutRecipients
  let settledSats ← okOr (directAmountSats.checkedAdd fanoutAmountSats)
    (settlementError "settlement amount overflowed")
  settlementRequire (settledSats = totalAmountSats) "settlement partition lost value"
  let fanoutChunks ← (fanoutRecipients.toChunks config.maxFanoutRecipientsPerTransaction).zipIdx.mapM
    fanoutChunk
  let mode ← settlementMode directRecipients fanoutChunks
  let fanoutRecipientCount := (fanoutChunks.map (·.recipientCount)).sum
  let coinbaseSettlementOutputCount ← checkedCount
    (config.reservedCoinbaseOutputs + directRecipients.length + fanoutChunks.length)
    "coinbase settlement output count overflowed"
  pure {
    mode
    directRecipients
    fanoutChunks
    directRecipientCount := directRecipients.length
    fanoutRecipientCount
    fanoutChunkCount := fanoutChunks.length
    directAmountSats
    fanoutAmountSats
    totalAmountSats
    coinbaseSettlementOutputCount
    reservedCoinbaseOutputCount := config.reservedCoinbaseOutputs
    reason := decisionReason directRecipients.length fanoutRecipientCount fanoutChunks.length
      directFloorSats coinbaseSettlementOutputCount config pinnedDirectCount }

/-- The selection on recipients that are normalised and in canonical order. -/
def selectCanonical (canonical : List SettlementRecipient) (directFloorSats : U64)
    (config : SettlementModeConfig) (pinnedDirect : Option SettlementRecipient) (recipientCount : ℕ) :
    Except PrismError SettlementModeDecision := do
  let _ ← validateRecipients canonical
  let pinnedKey ← pinnedDirect.mapM (resolvePinnedDirectKey canonical config)
  let pinnedDirectCount := if pinnedKey.isSome then 1 else 0
  let totalAmountSats ← sumAmounts canonical
  let directCount ← selectDirectCount recipientCount
    (directCandidates canonical directFloorSats pinnedKey).length config pinnedDirectCount
  settleParts config directFloorSats pinnedDirectCount totalAmountSats
    (directPart canonical directFloorSats pinnedKey directCount)
    (fanoutPart canonical directFloorSats pinnedKey directCount)

theorem selectSettlementMode_eq (recipients : List SettlementRecipient) (directFloorSats : U64)
    (config : SettlementModeConfig) (pinned : Option SettlementRecipient) :
    selectSettlementModeWithPinnedDirect recipients directFloorSats config pinned = (do
      validateConfig config
      settlementRequire (recipients ≠ []) "no recipients to settle"
      let normalized ← recipients.mapM normalizeRecipientP2mrProgram
      selectCanonical (sortBy canonicalRecipientCmp normalized) directFloorSats config pinned
        recipients.length) := rfl

structure PartsSettled (config : SettlementModeConfig) (total : U64)
    (directs fanouts : List SettlementRecipient) (decision : SettlementModeDecision) : Prop where
  directRecipients : decision.directRecipients = directs
  fanoutRecipients : decision.fanoutRecipients = fanouts
  chunks : decision.fanoutChunks.map (·.recipients) = fanouts.toChunks config.maxFanoutRecipientsPerTransaction
  chunkAmounts : ∀ chunk ∈ decision.fanoutChunks, chunk.recipientCount = chunk.recipients.length ∧
    chunk.amountSats.val = (chunk.recipients.map fun r => r.amountSats.val).sum
  directAmount : decision.directAmountSats.val = (directs.map fun r => r.amountSats.val).sum
  fanoutAmount : decision.fanoutAmountSats.val = (fanouts.map fun r => r.amountSats.val).sum
  totalAmount : decision.totalAmountSats.val =
    decision.directAmountSats.val + decision.fanoutAmountSats.val
  outputs : decision.coinbaseSettlementOutputCount =
    config.reservedCoinbaseOutputs + directs.length + decision.fanoutChunks.length

theorem fanoutChunk_amount {x : List SettlementRecipient × ℕ} {chunk : SettlementFanoutChunk}
    (h : fanoutChunk x = .ok chunk) : chunk.recipientCount = chunk.recipients.length ∧
      chunk.amountSats.val = (chunk.recipients.map fun r => r.amountSats.val).sum := by
  simp only [fanoutChunk, bind_eq_ok, pure_eq_ok] at h
  obtain ⟨amount, hamount, rfl⟩ := h
  exact ⟨rfl, sumAmounts_eq_ok.mp hamount⟩

variable {directFloorSats total : U64} {directs fanouts : List SettlementRecipient}
  {decision : SettlementModeDecision}

theorem settleParts_eq_ok {pinnedCount : ℕ}
    (h : settleParts config directFloorSats pinnedCount total directs fanouts = .ok decision) :
    PartsSettled config total directs fanouts decision := by
  simp only [settleParts, bind_eq_ok, pure_eq_ok, settlementRequire_eq_ok, okOr_eq_ok,
    Unsigned.checkedAdd_eq_some, sumAmounts_eq_ok, checkedCount] at h
  obtain ⟨directSats, hdirect, fanoutSats, hfanout, settledSats, hsettled, -, rfl, chunks, hchunks, mode, -,
    -, ⟨-, -, rfl⟩, rfl⟩ := h
  obtain ⟨hparts, -⟩ := fanoutChunks_eq_ok hchunks
  refine ⟨rfl, ?_, hparts, ?_, hdirect, hfanout, hsettled, rfl⟩
  · rw [SettlementModeDecision.fanoutRecipients, flatMap_def, hparts, Chunks.toChunks_flatten]
  · intro chunk hchunk
    obtain ⟨x, -, hx⟩ := mem_of_mapM_ok hchunks hchunk
    exact fanoutChunk_amount hx

theorem PartsSettled.chunks_length (h : PartsSettled config total directs fanouts decision)
    (hpos : 0 < config.maxFanoutRecipientsPerTransaction) :
    decision.coinbaseSettlementOutputCount =
      outputsNeeded config (directs.length + fanouts.length) directs.length := by
  rw [h.outputs, outputsNeeded, Nat.add_sub_cancel_left, ← Chunks.toChunks_length hpos, ← h.chunks, length_map]

theorem fanoutChunks_isOk {parts : List (List SettlementRecipient)}
    (hsum : (parts.flatten.map fun r => r.amountSats.val).sum < 2 ^ 64) :
    ∃ chunks, parts.zipIdx.mapM fanoutChunk = .ok chunks := by
  apply mapM_isOk
  rintro ⟨part, index⟩ hpart
  have hsub : (part.map fun r => r.amountSats.val).Sublist (parts.flatten.map fun r => r.amountSats.val) :=
    (sublist_flatten_of_mem (fst_mem_of_mem_zipIdx hpart)).map _
  obtain ⟨amount, hamount, -⟩ := sumAmounts_isOk (lt_of_le_of_lt (hsub.sum_le_sum (by simp)) hsum)
  exact ⟨_, by rw [fanoutChunk, hamount]; rfl⟩

theorem settlementMode_isOk {chunks : List SettlementFanoutChunk} (h : directs ≠ [] ∨ chunks ≠ []) :
    ∃ mode, settlementMode directs chunks = .ok mode := by
  unfold settlementMode
  cases directs with
  | nil =>
    cases chunks with
    | nil => simp at h
    | cons => exact ⟨_, rfl⟩
  | cons =>
    cases chunks with
    | nil | cons => exact ⟨_, rfl⟩

theorem settleParts_isOk (directFloorSats : U64) (pinnedCount : ℕ) (hchecked : ConfigChecked config)
    (hsome : directs ≠ [] ∨ fanouts ≠ [])
    (htotal : total.val = ((directs ++ fanouts).map fun r => r.amountSats.val).sum)
    (hfits : outputsNeeded config (directs.length + fanouts.length) directs.length ≤
      config.maxCoinbaseSettlementOutputs) :
    ∃ decision, settleParts config directFloorSats pinnedCount total directs fanouts = .ok decision := by
  have hsum := htotal ▸ total.isLt
  rw [map_append, sum_append] at hsum htotal
  obtain ⟨directSats, hdirect, hdirectVal⟩ := sumAmounts_isOk (lt_of_le_of_lt (Nat.le_add_right _ _) hsum)
  obtain ⟨fanoutSats, hfanout, hfanoutVal⟩ := sumAmounts_isOk (lt_of_le_of_lt (Nat.le_add_left _ _) hsum)
  have hsettled : directSats.checkedAdd fanoutSats = some total := by
    rw [Unsigned.checkedAdd_eq_some, htotal, hdirectVal, hfanoutVal]
  obtain ⟨chunks, hchunks⟩ : ∃ chunks, (fanouts.toChunks
      config.maxFanoutRecipientsPerTransaction).zipIdx.mapM fanoutChunk = .ok chunks := by
    apply fanoutChunks_isOk
    rw [Chunks.toChunks_flatten]
    exact lt_of_le_of_lt (Nat.le_add_left _ _) hsum
  obtain ⟨hparts, -⟩ := fanoutChunks_eq_ok hchunks
  obtain ⟨mode, hmode⟩ : ∃ mode, settlementMode directs chunks = .ok mode := by
    refine settlementMode_isOk (hsome.imp_right fun hfanouts hnone => hfanouts ?_)
    rw [hnone] at hparts
    rw [← Chunks.toChunks_flatten (n := config.maxFanoutRecipientsPerTransaction) fanouts, ← hparts]
    rfl
  have hcount : config.reservedCoinbaseOutputs + directs.length + chunks.length < 2 ^ 64 := by
    have hlength : chunks.length = (fanouts.toChunks config.maxFanoutRecipientsPerTransaction).length := by
      rw [← hparts, length_map]
    rw [outputsNeeded, Nat.add_sub_cancel_left, ← Chunks.toChunks_length hchecked.chunk_pos, ← hlength] at hfits
    have houtputs := hchecked.outputs
    simp only [maxCoinbaseSettlementOutputs] at houtputs
    omega
  simp only [settleParts, hdirect, hfanout, hsettled, hchunks, hmode, okOr_some, ok_bind, checkedCount,
    settlementRequire_of hcount]
  exact ⟨_, rfl⟩

def PinnedTo (pinned : Option SettlementRecipient) (r : SettlementRecipient) : Prop :=
  ∃ p ∈ pinned, ∃ normalized, normalizeRecipientP2mrProgram p = .ok normalized ∧
    normalized.toPayoutIdentity = r.toPayoutIdentity

/-- What a decision guarantees: everyone is paid once, the chunks are full, the budgets are kept, the
direct outputs go to the highest priorities, and one more of them would not fit. -/
structure Partitioned (recipients : List SettlementRecipient) (directFloorSats : U64)
    (config : SettlementModeConfig) (pinned : Option SettlementRecipient)
    (decision : SettlementModeDecision) : Prop where
  settles : decision.Settles recipients pinned
  directAmount : decision.directAmountSats.val = (decision.directRecipients.map fun r => r.amountSats.val).sum
  fanoutAmount : decision.fanoutAmountSats.val = (decision.fanoutRecipients.map fun r => r.amountSats.val).sum
  totalAmount : decision.totalAmountSats.val =
    decision.directAmountSats.val + decision.fanoutAmountSats.val
  chunkAmounts : ∀ chunk ∈ decision.fanoutChunks, chunk.recipientCount = chunk.recipients.length ∧
    chunk.amountSats.val = (chunk.recipients.map fun r => r.amountSats.val).sum
  chunks : decision.fanoutChunks = [] ∨
    Chunks.Cut config.maxFanoutRecipientsPerTransaction (decision.fanoutChunks.map (·.recipients))
  outputs : decision.coinbaseSettlementOutputCount =
    config.reservedCoinbaseOutputs + decision.directRecipients.length + decision.fanoutChunks.length
  outputBudget : decision.coinbaseSettlementOutputCount ≤ config.maxCoinbaseSettlementOutputs
  directBudget : decision.directRecipients.length ≤ config.maxDirectCoinbaseOutputs
  priority : ∀ r ∈ decision.directRecipients, ¬PinnedTo pinned r →
    directFloorSats.val ≤ r.amountSats.val ∧
      ∀ f ∈ decision.fanoutRecipients, directFloorSats.val ≤ f.amountSats.val → Outranks r f
  largest : ∀ count, decision.directRecipients.length < count → count ≤ config.maxDirectCoinbaseOutputs →
    count ≤ decision.directRecipients.length +
      (decision.fanoutRecipients.filter fun r => directFloorSats.val ≤ r.amountSats.val).length →
    config.maxCoinbaseSettlementOutputs < outputsNeeded config recipients.length count

variable {canonical : List SettlementRecipient} {pinned : Option SettlementRecipient}

theorem pinnedKey_spec {pinnedKey : Option PayoutIdentity}
    (h : pinned.mapM (resolvePinnedDirectKey canonical config) = .ok pinnedKey) :
    (∀ key ∈ pinnedKey, key ∈ canonical.map (·.toPayoutIdentity)) ∧
      (pinnedKey.isSome → config.maxDirectCoinbaseOutputs ≠ 0) ∧
      ∀ r, pinnedKey = some r.toPayoutIdentity → PinnedTo pinned r := by
  cases pinned with
  | none =>
    cases h
    simp
  | some p =>
    obtain ⟨hslot, normalized, hnormalized, hmem, rfl⟩ := pinnedKey_eq_ok.mp h
    refine ⟨?_, fun _ => hslot, ?_⟩
    · rintro key ⟨⟩
      exact hmem
    · intro r hkey
      exact ⟨p, rfl, normalized, hnormalized, Option.some.inj hkey⟩

variable {normalized : List SettlementRecipient}

theorem length_canonical (h : recipients.mapM normalizeRecipientP2mrProgram = .ok normalized) :
    (sortBy canonicalRecipientCmp normalized).length = recipients.length := by
  rw [(sortBy_perm _ _).length_eq, (mapM_eq_ok.mp h).length_eq]

theorem selectSettlementMode_partitioned
    (h : selectSettlementModeWithPinnedDirect recipients directFloorSats config pinned = .ok decision) :
    Partitioned recipients directFloorSats config pinned decision := by
  have hsettles := selectSettlementMode_settles h
  simp only [selectSettlementMode_eq, selectCanonical, bind_eq_ok] at h
  obtain ⟨⟨⟩, hconfig, -, -, normalized, hnormalized, seen, hseen, pinnedKey, hpinned, total, -, directCount,
    hcount, hparts⟩ := h
  have hchecked := validateConfig_eq_ok hconfig
  obtain ⟨hdistinct, -⟩ := validateRecipients_eq_ok hseen
  obtain ⟨hmem, hslot, hpinnedTo⟩ := pinnedKey_spec hpinned
  obtain ⟨htop, -, hfits, hlargest⟩ := tryDirectCounts_eq_ok hchecked.chunk_pos hcount
  obtain ⟨hcandidates, hslots⟩ := Nat.le_min.mp htop
  have hdirects := directPart_length directCount hdistinct hmem hcandidates
  have hsettled := settleParts_eq_ok hparts
  have hneeded := hsettled.chunks_length hchecked.chunk_pos
  rw [parts_length, length_canonical hnormalized, hdirects] at hneeded
  refine ⟨hsettles, ?_, ?_, hsettled.totalAmount, hsettled.chunkAmounts, ?_, ?_, hneeded ▸ hfits, ?_, ?_, ?_⟩
  case refine_1 => rw [hsettled.directRecipients, hsettled.directAmount]
  case refine_2 => rw [hsettled.fanoutRecipients, hsettled.fanoutAmount]
  case refine_3 =>
      rw [hsettled.chunks]
      rcases eq_or_ne (fanoutPart (sortBy canonicalRecipientCmp normalized) directFloorSats pinnedKey directCount)
        [] with hnone | hsome
      · left
        have hchunks := hsettled.chunks
        rw [hnone] at hchunks
        exact map_eq_nil_iff.mp hchunks
      · exact .inr (Chunks.toChunks_cut hchecked.chunk_pos hsome)
  case refine_4 => rw [hsettled.outputs, hsettled.directRecipients]
  case refine_5 =>
      rw [hsettled.directRecipients, hdirects]
      split_ifs at hslots ⊢ with hpin
      · have := hslot hpin
        omega
      · omega
  case refine_6 =>
      rw [hsettled.directRecipients, hsettled.fanoutRecipients]
      intro r hr hother
      exact directPart_priority directCount hdistinct hr fun hkey => hother (hpinnedTo r hkey)
  case refine_7 =>
      rw [hsettled.directRecipients, hsettled.fanoutRecipients, hdirects,
        (eligible_fanout_perm directCount hdistinct).length_eq, length_drop]
      intro count hmore hlimit heligible
      have hover := hlargest (count - if pinnedKey.isSome then 1 else 0) (by omega) (by omega)
      rwa [Nat.add_sub_cancel' (by omega)] at hover

/-- A direct output is free for the pinned recipient, which is one of the recipients. -/
def PinnedSlot (config : SettlementModeConfig) (normalized : List SettlementRecipient)
    (pinned : SettlementRecipient) : Prop :=
  config.maxDirectCoinbaseOutputs ≠ 0 ∧ ∃ p, normalizeRecipientP2mrProgram pinned = .ok p ∧
    p.toPayoutIdentity ∈ normalized.map (·.toPayoutIdentity)

theorem pinnedKey_isOk (h : ∀ p ∈ pinned, PinnedSlot config canonical p) :
    ∃ pinnedKey, pinned.mapM (resolvePinnedDirectKey canonical config) = .ok pinnedKey ∧
      pinnedKey.isSome = pinned.isSome := by
  cases pinned with
  | none => exact ⟨none, rfl, rfl⟩
  | some p =>
    obtain ⟨hslot, normalized, hnormalized, hmem⟩ := h p rfl
    exact ⟨_, pinnedKey_eq_ok.mpr ⟨hslot, normalized, hnormalized, hmem, rfl⟩, rfl⟩

/-- Recipients in canonical order are settled when their total is a `u64`, the pinned one has its slot
and the coinbase has room for everyone else in fanouts. -/
theorem selectCanonical_isOk (directFloorSats : U64) (hchecked : ConfigChecked config) (hsome : canonical ≠ [])
    (hdistinct : (canonical.map (·.toPayoutIdentity)).Nodup) (hpositive : ∀ r ∈ canonical, r.amountSats ≠ 0)
    (hsum : (canonical.map fun r => r.amountSats.val).sum < 2 ^ 64)
    (hpinned : ∀ p ∈ pinned, PinnedSlot config canonical p)
    (hfits : outputsNeeded config canonical.length (if pinned.isSome then 1 else 0) ≤
      config.maxCoinbaseSettlementOutputs) :
    ∃ decision, selectCanonical canonical directFloorSats config pinned canonical.length = .ok decision := by
  obtain ⟨seen, hseen⟩ := validateRecipients_isOk hdistinct hpositive
  obtain ⟨pinnedKey, hkey, hisSome⟩ := pinnedKey_isOk hpinned
  obtain ⟨hmem, -, -⟩ := pinnedKey_spec hkey
  obtain ⟨total, htotal, htotalVal⟩ := sumAmounts_isOk hsum
  have htop : (if pinnedKey.isSome then 1 else 0) +
      (directCandidates canonical directFloorSats pinnedKey).length ≤ canonical.length := by
    rw [← directPart_length _ hdistinct hmem le_rfl]
    exact length_filter_le _ _
  obtain ⟨directCount, hcount⟩ : ∃ directCount, selectDirectCount canonical.length
      (directCandidates canonical directFloorSats pinnedKey).length config
      (if pinnedKey.isSome then 1 else 0) = .ok directCount := by
    refine tryDirectCounts_isOk hchecked ?_ (by split_ifs <;> omega) (hisSome ▸ hfits)
    exact (Nat.add_le_add_left (Nat.min_le_left _ _) _).trans htop
  obtain ⟨hcandidates, -, hneeded, -⟩ := tryDirectCounts_eq_ok hchecked.chunk_pos hcount
  have hdirects := directPart_length directCount hdistinct hmem (hcandidates.trans (Nat.min_le_left _ _))
  have hlengths : (directPart canonical directFloorSats pinnedKey directCount).length + _ = _ :=
    parts_length directCount
  rw [selectCanonical, hseen, ok_bind, hkey, ok_bind, htotal, ok_bind, hcount, ok_bind]
  apply settleParts_isOk directFloorSats _ hchecked
  · have hpos := length_pos_of_ne_nil hsome
    rw [← length_pos_iff, ← length_pos_iff]
    omega
  · rw [htotalVal, ((parts_perm directCount).map _).sum_eq]
  · rw [hlengths, hdirects]
    exact hneeded

theorem selectCanonical_eq_ok (hchecked : ConfigChecked config)
    (h : selectCanonical canonical directFloorSats config pinned canonical.length = .ok decision) :
    (∀ p ∈ pinned, PinnedSlot config canonical p) ∧
      outputsNeeded config canonical.length (if pinned.isSome then 1 else 0) ≤
        config.maxCoinbaseSettlementOutputs ∧
      (canonical.map fun r => r.amountSats.val).sum < 2 ^ 64 := by
  simp only [selectCanonical, bind_eq_ok] at h
  obtain ⟨seen, -, pinnedKey, hpinned, total, htotal, directCount, hcount, -⟩ := h
  obtain ⟨-, hroom, hfits, -⟩ := tryDirectCounts_eq_ok hchecked.chunk_pos hcount
  have hslots : (∀ p ∈ pinned, PinnedSlot config canonical p) ∧ pinnedKey.isSome = pinned.isSome := by
    cases pinned with
    | none =>
      cases hpinned
      exact ⟨by rintro p ⟨⟩, rfl⟩
    | some p =>
      obtain ⟨hslot, normalized, hnormalized, hmem, rfl⟩ := pinnedKey_eq_ok.mp hpinned
      refine ⟨?_, rfl⟩
      rintro q ⟨⟩
      exact ⟨hslot, normalized, hnormalized, hmem⟩
  refine ⟨hslots.1, ?_, ?_⟩
  · rw [← hslots.2]
    exact (outputsNeeded_mono hchecked.chunk_pos (Nat.le_add_right _ _) hroom).trans hfits
  · rw [← sumAmounts_eq_ok.mp htotal]
    exact total.isLt

theorem PinnedSlot.perm {other : List SettlementRecipient} {pinned : SettlementRecipient}
    (h : PinnedSlot config normalized pinned) (hperm : normalized.Perm other) :
    PinnedSlot config other pinned := by
  obtain ⟨hslot, p, hp, hmem⟩ := h
  exact ⟨hslot, p, hp, (hperm.map (·.toPayoutIdentity)).mem_iff.mp hmem⟩

theorem selectSettlementMode_perm {other : List SettlementRecipient}
    (hnormalized : recipients.mapM normalizeRecipientP2mrProgram = .ok normalized)
    (hdistinct : (normalized.map (·.toPayoutIdentity)).Nodup) (hperm : other.Perm recipients)
    (directFloorSats : U64) (config : SettlementModeConfig) (pinned : Option SettlementRecipient) :
    selectSettlementModeWithPinnedDirect other directFloorSats config pinned =
      selectSettlementModeWithPinnedDirect recipients directFloorSats config pinned := by
  obtain ⟨normalized', hforall, hsame⟩ := List.perm_comp_forall₂ hperm (mapM_eq_ok.mp hnormalized)
  have hother := mapM_eq_ok.mpr hforall
  have hsorted : sortBy canonicalRecipientCmp normalized' = sortBy canonicalRecipientCmp normalized := by
    refine (sortBy_congr canonicalRecipientCmp hsame.symm ?_).symm
    intro a ha b hb hab
    exact inj_on_of_nodup_map hdistinct ha hb (Std.LawfulEqCmp.eq_of_compare hab)
  rcases eq_or_ne recipients [] with rfl | hsome
  · rw [perm_nil.mp hperm]
  · have hsome' : other ≠ [] := fun hnone => hsome (nil_perm.mp (hnone ▸ hperm))
    rw [selectSettlementMode_eq, selectSettlementMode_eq, settlementRequire_of hsome, settlementRequire_of hsome',
      hother, hnormalized]
    simp only [ok_bind, hsorted, hperm.length_eq]

/-- Every decision is a partition of the recipients that keeps the budgets, by priority, with as many
direct outputs as fit. Valid recipients with distinct keys are refused exactly when the pinned slot is
missing, when not even fanouts alone fit, or when the amounts add up to no `u64`; and their order does
not matter. -/
theorem selectSettlementMode_partition (recipients : List SettlementRecipient) (directFloorSats : U64)
    (config : SettlementModeConfig) (pinned : Option SettlementRecipient) :
    (∀ decision, selectSettlementModeWithPinnedDirect recipients directFloorSats config pinned = .ok decision →
      Partitioned recipients directFloorSats config pinned decision) ∧
    ∀ normalized, recipients.mapM normalizeRecipientP2mrProgram = .ok normalized →
      (normalized.map (·.toPayoutIdentity)).Nodup → (∀ r ∈ normalized, r.amountSats ≠ 0) →
      (validateConfig config = .ok () → recipients ≠ [] →
        ((∃ error, selectSettlementModeWithPinnedDirect recipients directFloorSats config pinned = .error error) ↔
          (∃ p ∈ pinned, ¬PinnedSlot config normalized p) ∨
          config.maxCoinbaseSettlementOutputs <
            outputsNeeded config recipients.length (if pinned.isSome then 1 else 0) ∨
          2 ^ 64 ≤ (normalized.map fun r => r.amountSats.val).sum)) ∧
      ∀ other : List SettlementRecipient, other.Perm recipients →
        selectSettlementModeWithPinnedDirect other directFloorSats config pinned =
          selectSettlementModeWithPinnedDirect recipients directFloorSats config pinned := by
  refine ⟨fun decision h => selectSettlementMode_partitioned h, ?_⟩
  intro normalized hnormalized hdistinct hpositive
  refine ⟨?_, fun other hperm => selectSettlementMode_perm hnormalized hdistinct hperm _ _ _⟩
  intro hconfig hsome
  have hchecked := validateConfig_eq_ok hconfig
  have hperm := sortBy_perm canonicalRecipientCmp normalized
  have hlength := length_canonical hnormalized
  have hsums := (hperm.map fun r => r.amountSats.val).sum_eq
  rw [selectSettlementMode_eq, hconfig, ok_bind, settlementRequire_of hsome, ok_bind, hnormalized, ok_bind, ← hlength]
  constructor
  · rintro ⟨error, herror⟩
    by_contra hall
    simp only [not_or, not_exists, not_and, not_not, not_lt, not_le] at hall
    obtain ⟨hslots, hfits, hsum⟩ := hall
    obtain ⟨decision, hdecision⟩ := selectCanonical_isOk directFloorSats hchecked
      (ne_nil_of_length_pos (hlength ▸ length_pos_of_ne_nil hsome))
      ((hperm.map _).nodup_iff.mpr hdistinct) (fun r hr => hpositive r (hperm.mem_iff.mp hr)) (hsums ▸ hsum)
      (fun p hp => (hslots p hp).perm hperm.symm) hfits
    rw [hdecision] at herror
    cases herror
  · intro hcause
    cases hresult : selectCanonical (sortBy canonicalRecipientCmp normalized) directFloorSats config pinned
        (sortBy canonicalRecipientCmp normalized).length with
    | error error => exact ⟨error, rfl⟩
    | ok decision =>
      obtain ⟨hslots, hfits, hsum⟩ := selectCanonical_eq_ok hchecked hresult
      rcases hcause with ⟨p, hp, hnone⟩ | hover | hwide
      · exact absurd ((hslots p hp).perm hperm) hnone
      · omega
      · omega

def roomyConfig : SettlementModeConfig where
  maxCoinbaseSettlementOutputs := 10
  maxDirectCoinbaseOutputs := 1
  maxFanoutRecipientsPerTransaction := 2
  reservedCoinbaseOutputs := 1

theorem selectSettlementMode_partition_three :
    ∃ decision, selectSettlementModeWithPinnedDirect feePayers 1000 roomyConfig (some (feePayer "c" 3 50)) =
        .ok decision ∧
      Partitioned feePayers 1000 roomyConfig (some (feePayer "c" 3 50)) decision := by
  have hok : (selectSettlementModeWithPinnedDirect feePayers 1000 roomyConfig
      (some (feePayer "c" 3 50))).isOk = true := by decide +kernel
  obtain ⟨decision, hdecision⟩ := exists_of_isOk hok
  exact ⟨decision, hdecision, (selectSettlementMode_partition _ _ _ _).1 decision hdecision⟩

/-- Two recipients of half of all `u64` amounts each. -/
def wideRecipients : List SettlementRecipient :=
  [feePayer "a" 1 (.wrapping (2 ^ 63)), feePayer "b" 2 (.wrapping (2 ^ 63))]

/-- Valid distinct recipients that fit the coinbase are refused because of their total. -/
theorem selectSettlementMode_wide :
    validateConfig roomyConfig = .ok () ∧
      wideRecipients.mapM normalizeRecipientP2mrProgram = .ok wideRecipients ∧
      (wideRecipients.map (·.toPayoutIdentity)).Nodup ∧ (∀ r ∈ wideRecipients, r.amountSats ≠ 0) ∧
      outputsNeeded roomyConfig wideRecipients.length 0 ≤ roomyConfig.maxCoinbaseSettlementOutputs ∧
      selectSettlementModeWithPinnedDirect wideRecipients 1 roomyConfig none =
        .error (settlementError "settlement amount overflowed") ∧
      selectSettlementModeWithPinnedDirect [] 1 roomyConfig none =
        .error (settlementError "no recipients to settle") := by
  refine ⟨by rfl, ?_, ?_, ?_, by decide, ?_, by rfl⟩
  all_goals decide +kernel

end QbitPrism
