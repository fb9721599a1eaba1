import Mathlib
import QbitPrism.Lib.Chunks
import QbitPrism.Settlement.Proportional

/-!
# Direct outputs or fanouts

`select_settlement_mode_with_pinned_direct`: the largest recipients above the floor are paid by
coinbase outputs of their own, as many as the output budget allows, and the others in chunks by
fanouts. A pinned recipient is always paid directly.
-/
namespace QbitPrism
open MachineInt Checked SortBy ByteReader List

structure SettlementModeConfig where
  maxCoinbaseSettlementOutputs : ℕ
  maxDirectCoinbaseOutputs : ℕ
  maxFanoutRecipientsPerTransaction : ℕ
  reservedCoinbaseOutputs : ℕ

def maxCoinbaseSettlementOutputs : ℕ := 500

def maxDirectCoinbaseOutputs : ℕ := maxCoinbaseSettlementOutputs

def maxCtvFanoutRecipientsPerTransaction : ℕ := 1160

def qbitTrucMaxTxWeightBytes : ℕ := 50000

def settlementRequire (c : Prop) [Decidable c] (reason : String) : Except PrismError Unit :=
  require c (settlementError reason)

@[simp] theorem settlementRequire_eq_ok {c : Prop} [Decidable c] {reason : String} {u : Unit} :
    settlementRequire c reason = .ok u ↔ c := require_eq_ok

theorem settlementRequire_of {c : Prop} [Decidable c] {reason : String} (h : c) :
    settlementRequire c reason = .ok () := require_of h

def validateConfig (config : SettlementModeConfig) : Except PrismError Unit := do
  settlementRequire (config.maxCoinbaseSettlementOutputs ≠ 0)
    "max_coinbase_settlement_outputs must be positive"
  settlementRequire (config.maxCoinbaseSettlementOutputs ≤ maxCoinbaseSettlementOutputs)
    "max_coinbase_settlement_outputs must be <= 500"
  settlementRequire (config.maxDirectCoinbaseOutputs ≤ maxDirectCoinbaseOutputs)
    "max_direct_coinbase_outputs must be <= 500"
  settlementRequire (config.maxFanoutRecipientsPerTransaction ≠ 0)
    "max_fanout_recipients_per_transaction must be positive"
  settlementRequire (config.maxFanoutRecipientsPerTransaction ≤ maxCtvFanoutRecipientsPerTransaction)
    "max_fanout_recipients_per_transaction must be <= 1160"
  let weight ← estimatedCtvFanoutWeightBytes config.maxFanoutRecipientsPerTransaction
  settlementRequire (weight.val ≤ qbitTrucMaxTxWeightBytes)
    "max_fanout_recipients_per_transaction exceeds qbit TRUC weight limit 50000"
  settlementRequire (config.reservedCoinbaseOutputs ≤ config.maxCoinbaseSettlementOutputs)
    "reserved_coinbase_outputs exceeds max_coinbase_settlement_outputs"

def resolvePinnedDirectKey (canonical : List SettlementRecipient) (config : SettlementModeConfig)
    (pinned : SettlementRecipient) : Except PrismError PayoutIdentity := do
  settlementRequire (config.maxDirectCoinbaseOutputs ≠ 0)
    "pinned direct recipient requires max_direct_coinbase_outputs >= 1"
  let normalized ← normalizeRecipientP2mrProgram pinned
  settlementRequire (normalized.toPayoutIdentity ∈ canonical.map (·.toPayoutIdentity))
    s!"pinned direct recipient {pinned.recipientId} is not among the settlement recipients"
  pure normalized.toPayoutIdentity

def directPriorityCmp (left right : SettlementRecipient) : Ordering :=
  (compare right.amountSats.val left.amountSats.val).then (canonicalRecipientCmp left right)

/-- A sum of counts, which must fit a `usize`. -/
def checkedCount (count : ℕ) (reason : String) : Except PrismError ℕ := do
  settlementRequire (count < 2 ^ 64) reason
  pure count

def fanoutChunkCount (recipientCount maxRecipientsPerChunk : ℕ) : Except PrismError ℕ :=
  if recipientCount = 0 then .ok 0
  else do
    let adjusted ← checkedCount (recipientCount + (maxRecipientsPerChunk - 1))
      "fanout chunk count overflowed"
    pure (adjusted / maxRecipientsPerChunk)

/-- The coinbase outputs that `directCount` direct recipients beside the pinned one lead to. -/
def coinbaseOutputCount (totalRecipientCount pinnedDirectCount : ℕ) (config : SettlementModeConfig)
    (directCount : ℕ) : Except PrismError ℕ := do
  settlementRequire (pinnedDirectCount + directCount ≤ totalRecipientCount)
    "direct recipient count exceeded total recipients"
  let chunkCount ← fanoutChunkCount (totalRecipientCount - pinnedDirectCount - directCount)
    config.maxFanoutRecipientsPerTransaction
  checkedCount (config.reservedCoinbaseOutputs + pinnedDirectCount + directCount + chunkCount)
    "coinbase settlement output count overflowed"

def tryDirectCounts (totalRecipientCount pinnedDirectCount : ℕ) (config : SettlementModeConfig) :
    ℕ → Except PrismError ℕ
  | 0 => do
    let outputs ← coinbaseOutputCount totalRecipientCount pinnedDirectCount config 0
    let limit := config.maxCoinbaseSettlementOutputs
    settlementRequire (outputs ≤ limit)
      s!"recipient partition requires more than {limit} coinbase settlement outputs"
    pure 0
  | directCount + 1 => do
    let outputs ← coinbaseOutputCount totalRecipientCount pinnedDirectCount config (directCount + 1)
    if outputs ≤ config.maxCoinbaseSettlementOutputs then pure (directCount + 1)
    else tryDirectCounts totalRecipientCount pinnedDirectCount config directCount

def selectDirectCount (totalRecipientCount directCandidateCount : ℕ) (config : SettlementModeConfig)
    (pinnedDirectCount : ℕ) : Except PrismError ℕ :=
  tryDirectCounts totalRecipientCount pinnedDirectCount config
    (min directCandidateCount (config.maxDirectCoinbaseOutputs - pinnedDirectCount))

def decisionReason (directCount fanoutCount fanoutChunks : ℕ) (directFloorSats : U64)
    (coinbaseSettlementOutputs : ℕ) (config : SettlementModeConfig) (pinnedDirectCount : ℕ) : String :=
  let floor := directFloorSats.val
  let outputCap := config.maxCoinbaseSettlementOutputs
  let chunkCap := config.maxFanoutRecipientsPerTransaction
  let reason :=
    if fanoutCount = 0 then
      s!"{directCount} recipients meet the {floor}-sat direct floor and fit within the " ++
        s!"{outputCap}-output coinbase settlement cap"
    else if directCount = 0 then
      s!"{fanoutCount} recipients routed to {fanoutChunks} CTV fanout chunk(s) capped at " ++
        s!"{chunkCap} recipients each; {coinbaseSettlementOutputs} coinbase settlement outputs used"
    else
      s!"{directCount} recipients paid directly by largest-liability priority; {fanoutCount} " ++
        s!"recipients routed to {fanoutChunks} CTV fanout chunk(s); {coinbaseSettlementOutputs} of " ++
        s!"{outputCap} coinbase settlement outputs used"
  if pinnedDirectCount = 0 then reason
  else
    reason ++ s!"; {pinnedDirectCount} direct settlement slot(s) pinned by the coinbase output policy"

def fanoutChunk (x : List SettlementRecipient × ℕ) : Except PrismError SettlementFanoutChunk := do
  let (recipients, chunkIndex) := x
  let amountSats ← sumAmounts recipients
  pure { chunkIndex, recipientCount := recipients.length, amountSats, recipients }

def settlementMode (directRecipients : List SettlementRecipient)
    (fanoutChunks : List SettlementFanoutChunk) : Except PrismError SettlementMode :=
  match directRecipients.isEmpty, fanoutChunks.isEmpty with
  | false, true => .ok .directCoinbase
  | true, false => .ok .ctvFanout
  | false, false => .ok .hybridCoinbaseCtvFanout
  | true, true => .error (settlementError "settlement partition is empty")

def paidDirectly (pinnedKey : Option PayoutIdentity) (selected : List SettlementRecipient)
    (recipient : SettlementRecipient) : Prop :=
  pinnedKey = some recipient.toPayoutIdentity ∨
    recipient.toPayoutIdentity ∈ selected.map (·.toPayoutIdentity)

instance (pinnedKey : Option PayoutIdentity) (selected : List SettlementRecipient)
    (recipient : SettlementRecipient) : Decidable (paidDirectly pinnedKey selected recipient) := by
  unfold paidDirectly
  infer_instance

def selectSettlementModeWithPinnedDirect (recipients : List SettlementRecipient) (directFloorSats : U64)
    (config : SettlementModeConfig) (pinnedDirect : Option SettlementRecipient) :
    Except PrismError SettlementModeDecision := do
  validateConfig config
  settlementRequire (recipients ≠ []) "no recipients to settle"
  let normalized ← recipients.mapM normalizeRecipientP2mrProgram
  let canonical := sortBy canonicalRecipientCmp normalized
  let _ ← validateRecipients canonical
  let pinnedKey ← pinnedDirect.mapM (resolvePinnedDirectKey canonical config)
  let pinnedDirectCount := if pinnedKey.isSome then 1 else 0
  let totalAmountSats ← sumAmounts canonical
  let candidates := sortBy directPriorityCmp (canonical.filter fun r =>
    directFloorSats.val ≤ r.amountSats.val ∧ pinnedKey ≠ some r.toPayoutIdentity)
  let directCount ← selectDirectCount recipients.length candidates.length config pinnedDirectCount
  let selected := candidates.take directCount
  let directRecipients := canonical.filter fun r => paidDirectly pinnedKey selected r
  let fanoutRecipients := canonical.filter fun r => ¬paidDirectly pinnedKey selected r
  let directAmountSats ← sumAmounts directRecipients
  let fanoutAmountSats ← sumAmounts fanoutRecipients
  let settledSats ← okOr (directAmountSats.checkedAdd fanoutAmountSats)
    (settlementError "settlement amount overflowed")
  settlementRequire (settledSats = totalAmountSats) "settlement partition lost value"
  let fanoutChunks ← (fanoutRecipients.toChunks config.maxFanoutRecipientsPerTransaction).zipIdx.mapM
    fanoutChunk
  let mode ← settlementMode directRecipients fanoutChunks
  let fanoutRecipientCount := (fanoutChunks.map (·.recipientCount)).sum
  let coinbaseSettlementOutputCount ← checkedCount
    (config.reservedCoinbaseOutputs + directRecipients.length + fanoutChunks.length)
    "coinbase settlement output count overflowed"
  pure {
    mode
    directRecipients
    fanoutChunks
    directRecipientCount := directRecipients.length
    fanoutRecipientCount
    fanoutChunkCount := fanoutChunks.length
    directAmountSats
    fanoutAmountSats
    totalAmountSats
    coinbaseSettlementOutputCount
    reservedCoinbaseOutputCount := config.reservedCoinbaseOutputs
    reason := decisionReason directRecipients.length fanoutRecipientCount fanoutChunks.length
      directFloorSats coinbaseSettlementOutputCount config pinnedDirectCount }

theorem normalizeRecipientP2mrProgram_eq_ok {recipient normalized : SettlementRecipient} :
    normalizeRecipientP2mrProgram recipient = .ok normalized ↔
      ∃ program : Bytes 32, Hex.decode recipient.p2mrProgramHex = .ok program.toList ∧
        normalized = { recipient with p2mrProgramHex := Hex.encode program.toList } := by
  simp only [normalizeRecipientP2mrProgram, bind_eq_ok, mapError_eq_ok, require_eq_ok, pure_eq_ok]
  constructor
  · rintro ⟨bytes, hbytes, -, hlen, rfl⟩
    exact ⟨⟨bytes, hlen⟩, hbytes, rfl⟩
  · rintro ⟨program, hprogram, rfl⟩
    exact ⟨program.toList, hprogram, (), program.toList_length, rfl⟩

namespace SettlementModeDecision

def fanoutRecipients (decision : SettlementModeDecision) : List SettlementRecipient :=
  decision.fanoutChunks.flatMap (·.recipients)

def recipients (decision : SettlementModeDecision) : List SettlementRecipient :=
  decision.directRecipients ++ decision.fanoutRecipients

/-- The decision pays these recipients, each once, and the pinned one directly. -/
structure Settles (decision : SettlementModeDecision) (recipients : List SettlementRecipient)
    (pinned : Option SettlementRecipient) : Prop where
  settled : ∃ normalized, recipients.mapM normalizeRecipientP2mrProgram = .ok normalized ∧
    decision.recipients.Perm normalized
  distinct : (decision.recipients.map (·.toPayoutIdentity)).Nodup
  positive : ∀ r ∈ decision.recipients, r.amountSats ≠ 0
  pinned : ∀ p ∈ pinned, ∃ normalized, normalizeRecipientP2mrProgram p = .ok normalized ∧
    ∃ r ∈ decision.directRecipients, r.toPayoutIdentity = normalized.toPayoutIdentity
  chunkIndices : decision.fanoutChunks.map (·.chunkIndex) = List.range decision.fanoutChunks.length
  chunkCount : decision.fanoutChunkCount = decision.fanoutChunks.length

end SettlementModeDecision

variable {chunks : List SettlementFanoutChunk} {pinnedKey : Option PayoutIdentity}
  {canonical : List SettlementRecipient}

theorem fanoutChunks_eq_ok {parts : List (List SettlementRecipient)} (h : parts.zipIdx.mapM fanoutChunk = .ok chunks) :
    chunks.map (·.recipients) = parts ∧ chunks.map (·.chunkIndex) = List.range chunks.length := by
  have hchunk : ∀ x chunk, fanoutChunk x = .ok chunk → (chunk.recipients, chunk.chunkIndex) = x := by
    intro x chunk hchunk
    simp only [fanoutChunk, bind_eq_ok, pure_eq_ok] at hchunk
    obtain ⟨amount, -, rfl⟩ := hchunk
    rfl
  have hparts : chunks.map (fun chunk => (chunk.recipients, chunk.chunkIndex)) = parts.zipIdx := by
    rw [map_eq_of_mapM_ok id _ h hchunk, map_id]
  have hlength : chunks.length = parts.length := by
    simpa using congrArg List.length hparts
  refine ⟨?_, ?_⟩
  · rw [← zipIdx_map_fst 0 parts, ← hparts, map_map]
    rfl
  · rw [hlength, range_eq_range', ← zipIdx_map_snd 0 parts, ← hparts, map_map]
    rfl

theorem filter_not_perm {α : Type*} (p : α → Prop) [DecidablePred p] (xs : List α) :
    ((xs.filter fun x => p x) ++ xs.filter fun x => ¬p x).Perm xs := by
  simp only [decide_not]
  exact filter_append_perm _ xs

theorem partition_perm {selected : List SettlementRecipient} {chunkLen : ℕ}
    (h : chunks.map (·.recipients) = (canonical.filter fun r => ¬paidDirectly pinnedKey selected r).toChunks chunkLen) :
    ((canonical.filter fun r => paidDirectly pinnedKey selected r) ++
      chunks.flatMap (·.recipients)).Perm canonical := by
  rw [flatMap_def, h, Chunks.toChunks_flatten]
  exact filter_not_perm _ canonical

theorem pinnedKey_eq_ok {config : SettlementModeConfig} {pinned : SettlementRecipient} :
    (some pinned).mapM (resolvePinnedDirectKey canonical config) = .ok pinnedKey ↔
      config.maxDirectCoinbaseOutputs ≠ 0 ∧ ∃ normalized,
        normalizeRecipientP2mrProgram pinned = .ok normalized ∧
        normalized.toPayoutIdentity ∈ canonical.map (·.toPayoutIdentity) ∧
        pinnedKey = some normalized.toPayoutIdentity := by
  have hmap : (some pinned).mapM (resolvePinnedDirectKey canonical config) = .ok pinnedKey ↔
      ∃ key, resolvePinnedDirectKey canonical config pinned = .ok key ∧ some key = pinnedKey := by
    rw [Option.mapM_some]
    cases resolvePinnedDirectKey canonical config pinned <;> simp [Functor.map, Except.map]
  simp only [hmap, resolvePinnedDirectKey, bind_eq_ok, settlementRequire_eq_ok, pure_eq_ok]
  constructor
  · rintro ⟨key, ⟨-, hslot, normalized, hnormalized, -, hmem, rfl⟩, rfl⟩
    exact ⟨hslot, normalized, hnormalized, hmem, rfl⟩
  · rintro ⟨hslot, normalized, hnormalized, hmem, rfl⟩
    exact ⟨_, ⟨(), hslot, normalized, hnormalized, (), hmem, rfl⟩, rfl⟩

theorem selectSettlementMode_settles {recipients : List SettlementRecipient} {directFloorSats : U64}
    {config : SettlementModeConfig} {pinned : Option SettlementRecipient} {decision : SettlementModeDecision}
    (h : selectSettlementModeWithPinnedDirect recipients directFloorSats config pinned = .ok decision) :
    decision.Settles recipients pinned := by
  simp only [selectSettlementModeWithPinnedDirect, bind_eq_ok, pure_eq_ok] at h
  obtain ⟨-, -, -, -, normalized, hnormalized, seen, hseen, pinnedKey, hpinned, total, -, directCount,
    -, directSats, -, fanoutSats, -, settledSats, -, -, -, chunks, hchunks, mode, -, outputCount, -,
    rfl⟩ := h
  obtain ⟨hparts, hindices⟩ := fanoutChunks_eq_ok hchunks
  obtain ⟨hdistinct, hpositive⟩ := validateRecipients_eq_ok hseen
  have hperm := (partition_perm hparts).trans (sortBy_perm canonicalRecipientCmp normalized)
  have hcanonical := partition_perm hparts
  refine ⟨⟨normalized, hnormalized, hperm⟩, ?_, ?_, ?_, hindices, rfl⟩
  case refine_1 => exact (hcanonical.map _).nodup_iff.mpr hdistinct
  case refine_2 =>
      intro r hr
      exact hpositive r (hcanonical.mem_iff.mp hr)
  case refine_3 =>
      rintro p rfl
      obtain ⟨-, key, hkey, hmem, rfl⟩ := pinnedKey_eq_ok.mp hpinned
      obtain ⟨r, hr, hidentity⟩ := mem_map.mp hmem
      refine ⟨key, hkey, r, ?_, hidentity⟩
      rw [mem_filter]
      exact ⟨hr, decide_eq_true (.inl (congrArg some hidentity.symm))⟩

end QbitPrism
