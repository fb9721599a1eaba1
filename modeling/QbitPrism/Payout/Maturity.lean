import Mathlib
import QbitPrism.Payout.Conservation

/-!
# Maturity entries and the carry-forward replay

Every settled block leaves one entry per account. The carried balance of a program
is never read off a block's snapshot: it is replayed from the entries, as the sum of
what each block earned the program minus what it paid it.
-/
namespace QbitPrism
open MachineInt Checked MergeByKey SortBy List

inductive PayoutMaturityState where
  | immature
  | mature
  | reversed
  deriving DecidableEq

structure PayoutMaturityEntry extends PayoutIdentity where
  blockHash : String
  blockHeight : U64
  accountType : PayoutPolicyAccountType
  grossAmountSats : U64
  priorBalanceSats : I128
  candidateBalanceSats : I128
  onchainAmountSats : U64
  settlementFeeSats : U64
  carryForwardBalanceSats : I128
  action : PayoutPolicyAction
  state : PayoutMaturityState
  deriving DecidableEq

def qbitCoinbaseMaturityBlocks : U64 := 1000

def maturityEntry (blockHash : String) (blockHeight : U64) (account : PayoutPolicyAccount) :
    PayoutMaturityEntry :=
  { account.toPayoutIdentity with
    blockHash
    blockHeight
    accountType := account.accountType
    grossAmountSats := account.grossAmountSats
    priorBalanceSats := account.priorBalanceSats
    candidateBalanceSats := account.candidateBalanceSats
    onchainAmountSats := account.onchainAmountSats
    settlementFeeSats := account.settlementFeeSats
    carryForwardBalanceSats := account.carryForwardBalanceSats
    action := account.action
    state := .immature }

def buildMaturityEntries (blockHash : String) (blockHeight : U64) (m : PayoutPolicyManifest) :
    List PayoutMaturityEntry :=
  m.accounts.map (maturityEntry blockHash blockHeight)

def updateMaturityState (activeTipHeight : U64) (entry : PayoutMaturityEntry) : PayoutMaturityEntry :=
  if entry.state = .immature ∧
      (entry.blockHeight.saturatingAdd qbitCoinbaseMaturityBlocks).val ≤ activeTipHeight.val then
    { entry with state := .mature }
  else entry

def updateMaturityStates (entries : List PayoutMaturityEntry) (activeTipHeight : U64) :
    List PayoutMaturityEntry :=
  entries.map (updateMaturityState activeTipHeight)

def PayoutMaturityEntry.counts (entry : PayoutMaturityEntry) : Bool :=
  entry.state ≠ .reversed ∧ entry.accountType ≠ .poolFee

def entryDelta (entry : PayoutMaturityEntry) : Except PrismError CarryForwardBalance := do
  let deltaSats ← okOr
    ((U64.toI128 entry.grossAmountSats).checkedSub (U64.toI128 entry.onchainAmountSats))
    (.panicked "u64 on-chain amount always fits i128")
  pure { entry.toPayoutIdentity with balanceSats := deltaSats }

def currentCarryForwardBalances (entries : List PayoutMaturityEntry) :
    Except PrismError (List CarryForwardBalance) := do
  let deltas ← (entries.filter (·.counts)).mapM entryDelta
  let balances : Std.TreeMap String CarryForwardBalance ←
    (balanceMerger (.panicked "carry-forward delta replay should not overflow i128")).merge deltas
  pure ((values balances).filter fun balance => balance.balanceSats ≠ 0)

def deltaSats (gross onchain : U64) : I128 :=
  ⟨gross.val - onchain.val, by have := gross.isLt; have := onchain.isLt; norm_num; omega,
    by have := gross.isLt; have := onchain.isLt; norm_num; omega⟩

def PayoutMaturityEntry.deltaRow (entry : PayoutMaturityEntry) : CarryForwardBalance :=
  { entry.toPayoutIdentity with balanceSats := deltaSats entry.grossAmountSats entry.onchainAmountSats }

def PayoutPolicyAccount.deltaRow (account : PayoutPolicyAccount) : CarryForwardBalance :=
  { account.toPayoutIdentity with
    balanceSats := deltaSats account.grossAmountSats account.onchainAmountSats }

theorem entryDelta_eq (entry : PayoutMaturityEntry) : entryDelta entry = .ok entry.deltaRow := by
  have hsub : (U64.toI128 entry.grossAmountSats).checkedSub (U64.toI128 entry.onchainAmountSats) =
      some (deltaSats entry.grossAmountSats entry.onchainAmountSats) :=
    Signed.checkedSub_eq_some.mpr rfl
  simp only [entryDelta, hsub, okOr_some, ok_bind]
  rfl

def deltaRows (entries : List PayoutMaturityEntry) : List CarryForwardBalance :=
  (entries.filter (·.counts)).map (·.deltaRow)

theorem mapM_entryDelta (entries : List PayoutMaturityEntry) :
    (entries.filter (·.counts)).mapM entryDelta = .ok (deltaRows entries) := by
  refine mapM_eq_ok.mpr ?_
  rw [deltaRows, List.forall₂_map_right_iff]
  exact List.forall₂_same.mpr fun entry _ => entryDelta_eq entry

theorem deltaRows_append (xs ys : List PayoutMaturityEntry) :
    deltaRows (xs ++ ys) = deltaRows xs ++ deltaRows ys := by
  simp only [deltaRows, filter_append, map_append]

theorem deltaRows_buildMaturityEntries (hash : String) (height : U64) (m : PayoutPolicyManifest) :
    deltaRows (buildMaturityEntries hash height m) = m.minerAccounts.map (·.deltaRow) := by
  rw [deltaRows, buildMaturityEntries, filter_map, map_map]
  have hcounts : (fun a => (maturityEntry hash height a).counts) =
      fun a : PayoutPolicyAccount => decide (a.accountType = .miner) := by
    funext a
    cases htype : a.accountType <;> simp [maturityEntry, PayoutMaturityEntry.counts, htype]
  exact congrArg (List.map (·.deltaRow)) (congrArg (fun p => List.filter p m.accounts) hcounts)

theorem deltaRows_updateMaturityStates (entries : List PayoutMaturityEntry) (tip : U64) :
    deltaRows (updateMaturityStates entries tip) = deltaRows entries := by
  have hcounts : ∀ e, (updateMaturityState tip e).counts = e.counts := by
    intro e
    unfold updateMaturityState
    split_ifs with h
    · simp [PayoutMaturityEntry.counts, h.1]
    · rfl
  have hrow : ∀ e, (updateMaturityState tip e).deltaRow = e.deltaRow := by
    intro e
    unfold updateMaturityState
    split_ifs <;> rfl
  rw [deltaRows, updateMaturityStates, filter_map, map_map]
  rw [show (fun e : PayoutMaturityEntry => e.counts) ∘ updateMaturityState tip = (·.counts) from funext hcounts]
  exact map_congr_left fun e _ => hrow e

def balanceOf (balances : List CarryForwardBalance) (program : String) : ℤ :=
  (balances.find? fun b => b.programKey = program).elim 0 fun b => b.balanceSats.val

/-- A program's carry in a manifest; zero when it has no miner account. -/
def carryOf (m : PayoutPolicyManifest) (program : String) : ℤ :=
  (m.minerAccounts.find? fun a => a.programKey = program).elim 0 fun a => a.carryForwardBalanceSats.val

/-- A successful replay: each program once, with the sum of its rows. -/
structure Replayed (rows balances : List CarryForwardBalance) : Prop where
  balance : ∀ b ∈ balances, b.balanceSats.val = programBalance rows b.programKey
  perProgram : ∀ k, programBalance balances k = programBalance rows k
  lookup : ∀ k, balanceOf balances k = programBalance rows k
  total : (balances.map fun b => b.balanceSats.val).sum = (rows.map fun b => b.balanceSats.val).sum

theorem sum_filter_ne_zero (balances : List CarryForwardBalance) :
    ((balances.filter fun b => b.balanceSats ≠ 0).map fun b => b.balanceSats.val).sum =
      (balances.map fun b => b.balanceSats.val).sum := by
  induction balances with
  | nil => rfl
  | cons b rest ih =>
    by_cases hb : b.balanceSats = 0
    · rw [filter_cons_of_neg (by simpa using hb), ih, map_cons, sum_cons, hb, Signed.val_zero, zero_add]
    · rw [filter_cons_of_pos (by simpa using hb), map_cons, map_cons, sum_cons, sum_cons, ih]

theorem MergedBalances.lookup_values {rows : List CarryForwardBalance}
    {m : Std.TreeMap String CarryForwardBalance} (h : MergedBalances rows m) (k : String) :
    balanceOf ((values m).filter fun b => b.balanceSats ≠ 0) k = programBalance rows k := by
  unfold balanceOf
  cases hfind : ((values m).filter fun b => b.balanceSats ≠ 0).find? fun b => b.programKey = k with
  | some b =>
    have hkey : b.programKey = k := by simpa using List.find?_some hfind
    obtain ⟨k', hk'⟩ := mem_values.mp (mem_filter.mp (mem_of_find?_eq_some hfind)).1
    have := h.programKey k' b hk'
    rw [Option.elim_some, ← hkey, this]
    exact h.getElem?_balance hk'
  | none =>
    rw [Option.elim_none, ← h.balance k]
    cases hk : m[k]? with
    | none => rfl
    | some b =>
      -- The program is in the map, so it was left out for being zero.
      have hkey := h.programKey k b hk
      by_contra hne
      have hmem : b ∈ (values m).filter fun b => b.balanceSats ≠ 0 := by
        refine mem_filter.mpr ⟨mem_values.mpr ⟨k, hk⟩, ?_⟩
        simp only [decide_eq_true_eq]
        rintro hzero
        exact hne (by rw [Option.elim_some, hzero, Signed.val_zero])
      exact absurd hkey (by simpa using List.find?_eq_none.mp hfind b hmem)

theorem MergedBalances.perProgram_values {rows : List CarryForwardBalance}
    {m : Std.TreeMap String CarryForwardBalance} (h : MergedBalances rows m) (k : String) :
    programBalance ((values m).filter fun b => b.balanceSats ≠ 0) k = programBalance rows k := by
  have hkv : ((values m).filter fun b => b.programKey = k) = (m[k]?).toList := by
    have hfil := filter_key_toList m k
    have heq : (values m).filter (fun b => b.programKey = k) =
        (m.toList.filter fun kv => kv.1 = k).map Prod.snd := by
      rw [values, filter_map]
      refine congrArg (List.map Prod.snd) (filter_congr fun kv hkv => ?_)
      have := h.programKey kv.1 kv.2 (Std.TreeMap.mem_toList_iff_getElem?_eq_some.mp hkv)
      simp only [Function.comp_apply, this]
    rw [heq, hfil]
    cases m[k]? <;> rfl
  rw [programBalance, filter_filter]
  rw [show (fun b : CarryForwardBalance => decide (b.programKey = k) && decide (b.balanceSats ≠ 0)) =
      fun b => decide (b.balanceSats ≠ 0) && decide (b.programKey = k) from
    funext fun b => Bool.and_comm _ _, ← filter_filter, sum_filter_ne_zero, hkv, ← h.balance k]
  cases m[k]? <;> simp

variable {entries : List PayoutMaturityEntry}

theorem currentCarryForwardBalances_eq_ok {balances : List CarryForwardBalance}
    (h : currentCarryForwardBalances entries = .ok balances) : Replayed (deltaRows entries) balances := by
  simp only [currentCarryForwardBalances, mapM_entryDelta, ok_bind, bind_eq_ok, pure_eq_ok] at h
  obtain ⟨m, hm, rfl⟩ := h
  have hmerged := balanceMerger_eq_ok hm
  refine ⟨fun b hb => ?_, hmerged.perProgram_values, hmerged.lookup_values, ?_⟩
  · obtain ⟨k, hk⟩ := mem_values.mp (mem_filter.mp hb).1
    rw [hmerged.programKey k b hk]
    exact hmerged.getElem?_balance hk
  · rw [sum_filter_ne_zero, values, map_map]
    exact hmerged.total

theorem currentCarryForwardBalances_isOk (h : RunningBalancesFit (deltaRows entries)) :
    ∃ balances, currentCarryForwardBalances entries = .ok balances := by
  obtain ⟨m, hm⟩ := balanceMerger_isOk
    (.panicked "carry-forward delta replay should not overflow i128") h
  exact ⟨_, by simp only [currentCarryForwardBalances, mapM_entryDelta, ok_bind, hm]; rfl⟩

/-- The entries so far, with the latest manifest and the dust swept by all blocks. -/
structure ReplayState where
  entries : List PayoutMaturityEntry
  latest : Option PayoutPolicyManifest
  swept : ℕ

/-- A block is settled on the replayed balances, or entries mature at some tip. -/
inductive ReplayStep : ReplayState → ReplayState → Prop
  | block {s : ReplayState} (r : PrismRewardManifest) (policy : PayoutPolicy) (hash : String) (height : U64)
      {priors : List CarryForwardBalance} {m : PayoutPolicyManifest}
      (replay : currentCarryForwardBalances s.entries = .ok priors)
      (settle : applyPayoutPolicy r priors policy = .ok m) :
      ReplayStep s ⟨s.entries ++ buildMaturityEntries hash height m, some m, s.swept + m.sweptDust⟩
  | mature {s : ReplayState} (tip : U64) :
      ReplayStep s { s with entries := updateMaturityStates s.entries tip }

def ReplayState.initial : ReplayState := ⟨[], none, 0⟩

/-- What every reachable state keeps about the replayed rows. -/
structure ReplayInvariant (s : ReplayState) : Prop where
  fit : RunningBalancesFit (deltaRows s.entries)
  carry : ∀ k, programBalance (deltaRows s.entries) k = s.latest.elim 0 fun m => carryOf m k
  nonneg : ∀ k, 0 ≤ programBalance (deltaRows s.entries) k
  total : ((deltaRows s.entries).map fun b => b.balanceSats.val).sum = s.swept

theorem programBalance_of_mem {rows : List CarryForwardBalance} {b : CarryForwardBalance}
    (hnd : (rows.map (·.programKey)).Nodup) (hb : b ∈ rows) :
    programBalance rows b.programKey = b.balanceSats.val := by
  rw [programBalance, filter_key_eq_singleton (fun b : CarryForwardBalance => b.programKey) hnd hb,
    map_singleton, sum_singleton]

theorem RunningBalancesFit.append {xs ys : List CarryForwardBalance} (hx : RunningBalancesFit xs)
    (hnd : (ys.map (·.programKey)).Nodup)
    (hfit : ∀ b ∈ ys, FitsI128 (programBalance xs b.programKey + b.balanceSats.val)) :
    RunningBalancesFit (xs ++ ys) := by
  intro done b hpre
  rcases prefix_or_prefix_of_prefix hpre (prefix_append xs ys) with hold | ⟨t, ht⟩
  · exact hx done b hold
  rcases eq_nil_or_concat t with rfl | ⟨t', b', rfl⟩
  · rw [append_nil] at ht
    exact hx done b (ht ▸ prefix_refl _)
  rw [concat_eq_append, ← append_assoc] at ht
  obtain ⟨rfl, hb⟩ := append_inj' ht rfl
  cases hb
  rw [append_assoc] at hpre
  have hys : t' ++ [b] <+: ys := (prefix_append_right_inj xs).mp hpre
  have hnew : programBalance (t' ++ [b]) b.programKey = b.balanceSats.val :=
    programBalance_of_mem ((hys.sublist.map _).nodup hnd) (by simp)
  rw [append_assoc, programBalance_append, hnew]
  exact hfit b (hys.subset (by simp))

section BlockStep
variable {r : PrismRewardManifest} {priors rows : List CarryForwardBalance} {policy : PayoutPolicy}
  {m : PayoutPolicyManifest}

section
variable (run : PolicyRun r priors policy m)
include run

theorem minerRows_nodup :
    ((m.minerAccounts.map (·.deltaRow)).map (·.programKey)).Nodup := by
  rw [map_map]
  exact run.programs_nodup

variable {a : PayoutPolicyAccount}

theorem carryOf_of_mem (ha : a ∈ m.minerAccounts) : carryOf m a.programKey = a.carryForwardBalanceSats.val := by
  rw [carryOf, find?_key_eq_some (fun a : PayoutPolicyAccount => a.programKey) run.programs_nodup ha,
    Option.elim_some]

theorem balance_after_block (hreplay : Replayed rows priors) (ha : a ∈ m.minerAccounts) :
    programBalance rows a.programKey + a.deltaRow.balanceSats.val = a.carryForwardBalanceSats.val := by
  rw [← hreplay.perProgram, ← run.prior_eq ha, run.carry_eq ha, run.candidate_eq ha]
  simp only [PayoutPolicyAccount.deltaRow, deltaSats]
  ring

theorem carry_nonneg (hreplay : Replayed rows priors) (hrows : ∀ k, 0 ≤ programBalance rows k)
    (ha : a ∈ m.minerAccounts) : 0 ≤ a.carryForwardBalanceSats.val := by
  have hprior := hrows a.programKey
  rw [← hreplay.perProgram, ← run.prior_eq ha] at hprior
  have hcand := run.candidate_eq ha
  rw [run.carry_eq ha]
  rcases run.onchain_range ha with hzero | ⟨-, hle⟩ <;> omega

theorem carry_after_block (hreplay : Replayed rows priors) (k : String) :
    programBalance (rows ++ m.minerAccounts.map (·.deltaRow)) k = carryOf m k := by
  rw [programBalance_append]
  by_cases hk : ∃ a ∈ m.minerAccounts, a.programKey = k
  · obtain ⟨a, ha, rfl⟩ := hk
    have hrow := programBalance_of_mem (minerRows_nodup run) (mem_map_of_mem (f := (·.deltaRow)) ha)
    rw [carryOf_of_mem run ha, ← balance_after_block run hreplay ha]
    exact congrArg _ hrow
  · have hold : programBalance rows k = 0 := by
      rw [← hreplay.perProgram]
      refine programBalance_eq_zero fun b hb hbk => hk ?_
      obtain ⟨a, ha, hak⟩ := mem_map.mp ((run.mem_programs k).mpr (.inr ⟨b, hb, hbk⟩))
      exact ⟨a, ha, hak⟩
    have hnew : programBalance (m.minerAccounts.map (·.deltaRow)) k = 0 := by
      refine programBalance_eq_zero fun b hb hbk => hk ?_
      obtain ⟨a, ha, rfl⟩ := mem_map.mp hb
      exact ⟨a, ha, hbk⟩
    have hnone : m.minerAccounts.find? (fun a => a.programKey = k) = none :=
      List.find?_eq_none.mpr fun a ha => by simpa using fun h => hk ⟨a, ha, h⟩
    rw [hold, hnew, carryOf, hnone]
    rfl

theorem minerRows_total :
    ((m.minerAccounts.map (·.deltaRow)).map fun b => b.balanceSats.val).sum = m.sweptDust := by
  have heach : (m.minerAccounts.map fun a => a.carryForwardBalanceSats.val) =
      m.minerAccounts.map fun a => a.priorBalanceSats.val + a.deltaRow.balanceSats.val :=
    map_congr_left fun a ha => by
      rw [run.carry_eq ha, run.candidate_eq ha]
      simp only [PayoutPolicyAccount.deltaRow, deltaSats]
      ring
  have hsum := congrArg List.sum heach
  rw [sum_map_add, run.carry_total, run.prior_total] at hsum
  rw [map_map]
  exact (add_left_cancel hsum).symm

end

end BlockStep

theorem ReplayInvariant.initial : ReplayInvariant .initial where
  fit done b hpre := absurd hpre.length_le (by simp [ReplayState.initial, deltaRows])
  carry k := rfl
  nonneg k := le_refl 0
  total := rfl

theorem ReplayInvariant.step {s s' : ReplayState} (h : ReplayInvariant s) (hstep : ReplayStep s s') :
    ReplayInvariant s' := by
  cases hstep with
  | @block r policy hash height priors m replay settle =>
    obtain ⟨run⟩ := applyPayoutPolicy_eq_ok settle
    have hreplay := currentCarryForwardBalances_eq_ok replay
    have hrows : deltaRows (s.entries ++ buildMaturityEntries hash height m) =
        deltaRows s.entries ++ m.minerAccounts.map (·.deltaRow) := by
      rw [deltaRows_append, deltaRows_buildMaturityEntries]
    have hcarry := carry_after_block run hreplay
    refine ⟨?_, fun k => ?_, fun k => ?_, ?_⟩
    · rw [hrows]
      refine h.fit.append (minerRows_nodup run) fun b hb => ?_
      obtain ⟨a, ha, rfl⟩ := mem_map.mp hb
      have hbal := balance_after_block run hreplay ha
      rw [show (a.deltaRow).programKey = a.programKey from rfl, hbal]
      exact ⟨a.carryForwardBalanceSats.lower, a.carryForwardBalanceSats.upper⟩
    · rw [hrows]
      exact hcarry k
    · rw [hrows, hcarry, carryOf]
      cases hfind : m.minerAccounts.find? fun a => a.programKey = k with
      | none => exact le_refl 0
      | some a => exact carry_nonneg run hreplay h.nonneg (mem_of_find?_eq_some hfind)
    · rw [hrows, map_append, sum_append, h.total, minerRows_total run]
      push_cast
      rfl
  | mature tip =>
    have hrows := deltaRows_updateMaturityStates s.entries tip
    refine ⟨?_, fun k => ?_, fun k => ?_, ?_⟩
    · rw [hrows]
      exact h.fit
    · rw [hrows]
      exact h.carry k
    · rw [hrows]
      exact h.nonneg k
    · rw [hrows]
      exact h.total

theorem ReplayInvariant.reachable {s : ReplayState} (h : Relation.ReflTransGen ReplayStep .initial s) :
    ReplayInvariant s := by
  induction h with
  | refl => exact .initial
  | tail _ hstep ih => exact ih.step hstep

/-- In every reachable state the replay succeeds and returns, for each program, its
carry in the latest manifest; no balance is negative, and together they are the dust
swept by all blocks. -/
theorem replay_agrees {s : ReplayState} (h : Relation.ReflTransGen ReplayStep .initial s) :
    ∃ balances, currentCarryForwardBalances s.entries = .ok balances ∧
      (∀ k, balanceOf balances k = s.latest.elim 0 fun m => carryOf m k) ∧
      (∀ b ∈ balances, 0 ≤ b.balanceSats.val) ∧
      (balances.map fun b => b.balanceSats.val).sum = s.swept := by
  have hinv := ReplayInvariant.reachable h
  obtain ⟨balances, hok⟩ := currentCarryForwardBalances_isOk hinv.fit
  have hreplay := currentCarryForwardBalances_eq_ok hok
  refine ⟨balances, hok, fun k => ?_, fun b hb => ?_, ?_⟩
  · rw [hreplay.lookup, hinv.carry]
  · rw [hreplay.balance b hb]
    exact hinv.nonneg _
  · rw [hreplay.total, hinv.total]

theorem replay_agrees_one_block : ∃ m balances,
    applyPayoutPolicy (smallReward 1000 [smallMiner "a1" 999, smallMiner "b2" 1]) [] (smallPolicy 200 0) =
      .ok m ∧
    currentCarryForwardBalances (buildMaturityEntries "00" 1 m) = .ok balances ∧
    balanceOf balances "b2" = carryOf m "b2" ∧
    (balances.map fun b => b.balanceSats.val).sum = m.sweptDust := by
  obtain ⟨m, hm⟩ := exists_of_isOk (x := applyPayoutPolicy
    (smallReward 1000 [smallMiner "a1" 999, smallMiner "b2" 1]) [] (smallPolicy 200 0)) (by decide +kernel)
  have hstep : ReplayStep .initial ⟨buildMaturityEntries "00" 1 m, some m, 0 + m.sweptDust⟩ :=
    ReplayStep.block _ _ "00" 1 (by decide +kernel) hm
  obtain ⟨balances, hok, hcarry, -, htotal⟩ := replay_agrees (.single hstep)
  exact ⟨m, balances, hm, hok, hcarry "b2", by simpa using htotal⟩

end QbitPrism
