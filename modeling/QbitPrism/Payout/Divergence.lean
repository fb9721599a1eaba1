import Mathlib
import QbitPrism.Payout.Maturity

/-!
# Divergent landings

A block pays on the balances its work was issued on, and may confirm when the
canonical balances are others (`ledger/divergence.rs`). What it overpays is debt.
Balances are sums of 64-bit deltas, far from the range of `i128`, so the report's
unchecked `i128` arithmetic is exact integer arithmetic here.
-/
namespace QbitPrism
open MachineInt Checked MergeByKey List

def balanceMap (balances : List CarryForwardBalance) : Std.TreeMap String ℤ :=
  (TotalMerger.mk (fun b : CarryForwardBalance => b.programKey) (fun _ => (0 : ℤ))
    (fun sum b => sum + b.balanceSats.val)).merge balances

/-- The most debt a block built on `issued` can create, in every order of confirmations. -/
def overpayBound (issued : List CarryForwardBalance) : ℤ :=
  (values (balanceMap issued) |>.map fun balance => max balance 0).sum

/-- One program's rows in a block: its as-issued prior, gross and on-chain. -/
structure CarryRow where
  p2mrProgramHex : String
  minerId : String
  issuedPriorSats : ℤ
  grossSats : ℤ
  onchainSats : ℤ

structure AccountOverpay where
  p2mrProgramHex : String
  minerId : String
  issuedPriorSats : ℤ
  currentPriorSats : ℤ
  grossSats : ℤ
  onchainSats : ℤ
  overpaySats : ℤ
  debtAfterSats : ℤ
  deriving DecidableEq

/-- What a block's rows do to the carry-forward debt when they start to count. -/
structure LandingDivergence where
  divergentAccounts : ℕ := 0
  overpaySats : ℤ := 0
  overpaidDebtAfterSats : ℤ := 0
  poolDebtAfterSats : ℤ := 0
  overpaid : List AccountOverpay := []
  deriving DecidableEq

structure ProgramRow where
  minerId : String
  issued : ℤ
  gross : ℤ
  onchain : ℤ

def programRows (rows : List CarryRow) : Std.TreeMap String ProgramRow :=
  (TotalMerger.mk (fun row : CarryRow => payoutProgramKey row.p2mrProgramHex)
    (fun row => ⟨row.minerId, 0, 0, 0⟩)
    (fun entry row =>
      { entry with
        issued := entry.issued + row.issuedPriorSats
        gross := entry.gross + row.grossSats
        onchain := entry.onchain + row.onchainSats })).merge rows

def debt (balance : ℤ) : ℤ := max (-balance) 0

def addProgram (current : Std.TreeMap String ℤ) (divergence : LandingDivergence)
    (x : String × ProgramRow) : LandingDivergence :=
  let before := (current[x.1]?).getD 0
  let after := before + x.2.gross - x.2.onchain
  let overpay := max (debt after - debt before) 0
  let counted := { divergence with
    divergentAccounts := divergence.divergentAccounts + (if x.2.issued ≠ before then 1 else 0)
    poolDebtAfterSats := divergence.poolDebtAfterSats + debt after }
  if 0 < overpay then
    { counted with
      overpaySats := counted.overpaySats + overpay
      overpaidDebtAfterSats := counted.overpaidDebtAfterSats + debt after
      overpaid := counted.overpaid ++ [{
        p2mrProgramHex := x.1
        minerId := x.2.minerId
        issuedPriorSats := x.2.issued
        currentPriorSats := before
        grossSats := x.2.gross
        onchainSats := x.2.onchain
        overpaySats := overpay
        debtAfterSats := debt after }] }
  else counted

/-- The debt a block's rows create when they start to count on `current`. -/
def rowsDivergence (blockRows : List CarryRow) (current : List CarryForwardBalance) : LandingDivergence :=
  let currentMap := balanceMap current
  let rows := programRows blockRows
  let divergence := rows.toList.foldl (addProgram currentMap) {}
  { divergence with
    poolDebtAfterSats := divergence.poolDebtAfterSats +
      ((currentMap.toList.filter fun kv => kv.1 ∉ rows).map fun kv => debt kv.2).sum }

def PayoutPolicyAccount.carryRow (account : PayoutPolicyAccount) : CarryRow where
  p2mrProgramHex := account.p2mrProgramHex
  minerId := account.recipientId
  issuedPriorSats := account.priorBalanceSats.val
  grossSats := account.grossAmountSats.val
  onchainSats := account.onchainAmountSats.val

def landingDivergence (accounts : List PayoutPolicyAccount) (current : List CarryForwardBalance) :
    LandingDivergence :=
  rowsDivergence ((accounts.filter fun a => a.accountType = .miner).map (·.carryRow)) current

theorem balanceMap_summed (balances : List CarryForwardBalance) :
    (∀ k, k ∈ balanceMap balances ↔ ∃ b ∈ balances, b.programKey = k) ∧
      ∀ k, ((balanceMap balances)[k]?).getD 0 = programBalance balances k := by
  have h : Summed _ id (fun b : CarryForwardBalance => b.balanceSats.val) balances (balanceMap balances) :=
    TotalMerger.merge_summed
    ⟨fun b : CarryForwardBalance => b.programKey, fun _ => (0 : ℤ), fun sum b => sum + b.balanceSats.val⟩
    (fun _ => rfl) (fun _ _ => rfl) balances
  refine ⟨h.keys, fun k => ?_⟩
  have hk := h.perKey k
  change (balanceMap balances)[k]?.elim 0 id = programBalance balances k at hk
  rw [← hk]
  cases (balanceMap balances)[k]? <;> rfl

theorem programRows_summed (accounts : List PayoutPolicyAccount) :
    (∀ k, k ∈ programRows (accounts.map (·.carryRow)) ↔ ∃ a ∈ accounts, a.programKey = k) ∧
      ∀ k row, (programRows (accounts.map (·.carryRow)))[k]? = some row →
        row.gross - row.onchain = programBalance (accounts.map (·.deltaRow)) k := by
  have h : Summed _ (fun row : ProgramRow => row.gross - row.onchain)
      (fun row : CarryRow => row.grossSats - row.onchainSats) (accounts.map (·.carryRow))
      (programRows (accounts.map (·.carryRow))) := TotalMerger.merge_summed
    ⟨fun row : CarryRow => payoutProgramKey row.p2mrProgramHex,
      fun row => (⟨row.minerId, 0, 0, 0⟩ : ProgramRow),
      fun entry row =>
        { entry with
          issued := entry.issued + row.issuedPriorSats
          gross := entry.gross + row.grossSats
          onchain := entry.onchain + row.onchainSats }⟩
    (fun _ => sub_zero 0) (fun row entry => by ring) (accounts.map (·.carryRow))
  refine ⟨fun k => ?_, fun k row hrow => ?_⟩
  · refine (h.keys k).trans ?_
    simp only [mem_map, exists_exists_and_eq_and]
    rfl
  · have hk := h.perKey k
    change (programRows (accounts.map (·.carryRow)))[k]?.elim 0 _ = _ at hk
    rw [hrow, Option.elim_some, filter_map, map_map] at hk
    rw [hk, programBalance, filter_map, map_map]
    rfl

def overpayOf (before after : ℤ) : ℤ := max (debt after - debt before) 0

section
variable (current : Std.TreeMap String ℤ)
include current

theorem addProgram_overpaySats (d : LandingDivergence)
    (x : String × ProgramRow) : (addProgram current d x).overpaySats = d.overpaySats +
      overpayOf ((current[x.1]?).getD 0) ((current[x.1]?).getD 0 + x.2.gross - x.2.onchain) := by
  simp only [addProgram, overpayOf, apply_ite LandingDivergence.overpaySats]
  split_ifs with h
  · rfl
  · omega

theorem addProgram_poolDebtAfterSats (d : LandingDivergence)
    (x : String × ProgramRow) : (addProgram current d x).poolDebtAfterSats =
      d.poolDebtAfterSats + debt ((current[x.1]?).getD 0 + x.2.gross - x.2.onchain) := by
  simp only [addProgram, apply_ite LandingDivergence.poolDebtAfterSats, ite_self]

theorem foldl_addProgram (xs : List (String × ProgramRow)) (d : LandingDivergence) :
    (xs.foldl (addProgram current) d).overpaySats = d.overpaySats + (xs.map fun x =>
        overpayOf ((current[x.1]?).getD 0) ((current[x.1]?).getD 0 + x.2.gross - x.2.onchain)).sum ∧
      (xs.foldl (addProgram current) d).poolDebtAfterSats = d.poolDebtAfterSats + (xs.map fun x =>
        debt ((current[x.1]?).getD 0 + x.2.gross - x.2.onchain)).sum := by
  induction xs generalizing d with
  | nil => simp
  | cons x xs ih =>
    obtain ⟨hover, hdebt⟩ := ih (addProgram current d x)
    rw [foldl_cons, map_cons, sum_cons, map_cons, sum_cons, hover, hdebt,
      addProgram_overpaySats, addProgram_poolDebtAfterSats]
    exact ⟨add_assoc _ _ _, add_assoc _ _ _⟩

end

/-- The canonical balance of every program. -/
abbrev Canonical := String →₀ ℤ

noncomputable def poolDebt (balances : Canonical) : ℤ := balances.sum fun _ z => debt z

def Represents (current : List CarryForwardBalance) (balances : Canonical) : Prop :=
  ∀ k, programBalance current k = balances k

/-- A confirmed block adds, for each of its miner programs, gross minus on-chain. -/
noncomputable def confirm (m : PayoutPolicyManifest) (balances : Canonical) : Canonical :=
  balances + (m.minerAccounts.map fun a =>
    Finsupp.single a.programKey ((a.grossAmountSats.val : ℤ) - a.onchainAmountSats.val)).sum

theorem confirm_apply (m : PayoutPolicyManifest) (balances : Canonical) (k : String) :
    confirm m balances k = balances k + programBalance (m.minerAccounts.map (·.deltaRow)) k := by
  rw [confirm, Finsupp.add_apply]
  congr 1
  induction m.minerAccounts with
  | nil => rfl
  | cons a rest ih =>
    rw [map_cons, sum_cons, Finsupp.add_apply, ih, Finsupp.single_apply, map_cons,
      ← singleton_append, programBalance_append]
    congr 1
    by_cases hk : a.programKey = k
    · simp [programBalance, hk, PayoutPolicyAccount.deltaRow, deltaSats]
    · have hrow : (a.deltaRow).programKey ≠ k := hk
      simp [programBalance, hk, hrow]

theorem debt_zero : debt 0 = 0 := rfl

theorem poolDebt_eq {balances : Canonical} {keys : List String} (hnd : keys.Nodup)
    (hcover : ∀ k, balances k ≠ 0 → k ∈ keys) :
    poolDebt balances = (keys.map fun k => debt (balances k)).sum := by
  rw [poolDebt, Finsupp.sum_of_support_subset (s := keys.toFinset) _ ?_ _ fun _ _ => debt_zero, sum_toFinset _ hnd]
  intro k hk
  exact mem_toFinset.mpr (hcover k (Finsupp.mem_support_iff.mp hk))

section Landing
variable {m : PayoutPolicyManifest} {current : List CarryForwardBalance} {balances : Canonical}

def minerPrograms (m : PayoutPolicyManifest) : List String :=
  (programRows (m.minerAccounts.map (·.carryRow))).keys

theorem mem_minerPrograms {k : String} :
    k ∈ minerPrograms m ↔ ∃ a ∈ m.minerAccounts, a.programKey = k := by
  rw [minerPrograms, Std.TreeMap.mem_keys]
  exact (programRows_summed m.minerAccounts).1 k

theorem confirm_of_not_mem {k : String} (hk : k ∉ minerPrograms m) : confirm m balances k = balances k := by
  rw [confirm_apply, programBalance_eq_zero, add_zero]
  intro b hb hbk
  obtain ⟨a, ha, rfl⟩ := mem_map.mp hb
  exact hk (mem_minerPrograms.mpr ⟨a, ha, hbk⟩)

theorem sum_programRows (hrep : Represents current balances) (f : ℤ → ℤ → ℤ) :
    ((programRows (m.minerAccounts.map (·.carryRow))).toList.map fun x =>
        f (((balanceMap current)[x.1]?).getD 0)
          (((balanceMap current)[x.1]?).getD 0 + x.2.gross - x.2.onchain)).sum =
      ((minerPrograms m).map fun k => f (balances k) (confirm m balances k)).sum := by
  rw [minerPrograms, ← Std.TreeMap.map_fst_toList_eq_keys, map_map]
  refine congrArg List.sum (map_congr_left fun x hx => ?_)
  have hrow := (programRows_summed m.minerAccounts).2 x.1 x.2
    (Std.TreeMap.mem_toList_iff_getElem?_eq_some.mp hx)
  rw [(balanceMap_summed current).2, hrep, Function.comp_apply, confirm_apply, ← hrow, add_sub_assoc]

def otherPrograms (m : PayoutPolicyManifest) (current : List CarryForwardBalance) : List String :=
  (balanceMap current).keys.filter fun k => k ∉ minerPrograms m

theorem programs_nodup (m : PayoutPolicyManifest) (current : List CarryForwardBalance) :
    (minerPrograms m ++ otherPrograms m current).Nodup := by
  refine nodup_append.mpr ⟨Std.TreeMap.nodup_keys, Std.TreeMap.nodup_keys.filter _, ?_⟩
  rintro k hk _ hk' rfl
  exact absurd hk (by simpa using (mem_filter.mp hk').2)

section
variable (hrep : Represents current balances)
include hrep

theorem mem_programs_of_ne {k : String} (hk : balances k ≠ 0) :
    k ∈ minerPrograms m ++ otherPrograms m current := by
  by_cases hm : k ∈ minerPrograms m
  · exact mem_append_left _ hm
  · refine mem_append_right _ (mem_filter.mpr ⟨?_, by simpa using hm⟩)
    rw [Std.TreeMap.mem_keys, (balanceMap_summed current).1]
    by_contra hnone
    refine hk ((hrep k).symm.trans (programBalance_eq_zero fun b hb hbk => hnone ⟨b, hb, hbk⟩))

theorem poolDebt_before : poolDebt balances =
    ((minerPrograms m).map fun k => debt (balances k)).sum +
      ((otherPrograms m current).map fun k => debt (balances k)).sum := by
  rw [poolDebt_eq (programs_nodup m current) fun k => mem_programs_of_ne hrep, map_append, sum_append]

theorem poolDebt_confirm : poolDebt (confirm m balances) =
    ((minerPrograms m).map fun k => debt (confirm m balances k)).sum +
      ((otherPrograms m current).map fun k => debt (balances k)).sum := by
  rw [poolDebt_eq (programs_nodup m current), map_append, sum_append]
  · refine congrArg _ (congrArg List.sum (map_congr_left fun k hk => ?_))
    rw [confirm_of_not_mem (by simpa using (mem_filter.mp hk).2)]
  · intro k hk
    by_cases hm : k ∈ minerPrograms m
    · exact mem_append_left _ hm
    · rw [confirm_of_not_mem hm] at hk
      exact mem_programs_of_ne hrep hk

theorem landingDivergence_overpaySats :
    (landingDivergence m.accounts current).overpaySats =
      ((minerPrograms m).map fun k => overpayOf (balances k) (confirm m balances k)).sum := by
  rw [← sum_programRows hrep overpayOf]
  exact (foldl_addProgram _ _ _).1.trans (zero_add _)

theorem landingDivergence_poolDebtAfterSats :
    (landingDivergence m.accounts current).poolDebtAfterSats = poolDebt (confirm m balances) := by
  have hrows := (foldl_addProgram (balanceMap current)
    (programRows (m.minerAccounts.map (·.carryRow))).toList {}).2.trans (zero_add _)
  have hothers : (((balanceMap current).toList.filter
        fun kv => kv.1 ∉ programRows (m.minerAccounts.map (·.carryRow))).map fun kv => debt kv.2).sum =
      ((otherPrograms m current).map fun k => debt (balances k)).sum := by
    rw [otherPrograms, ← Std.TreeMap.map_fst_toList_eq_keys, filter_map, map_map]
    have hmem : (fun kv : String × ℤ => decide (kv.1 ∉ programRows (m.minerAccounts.map (·.carryRow)))) =
        (fun k => decide (k ∉ minerPrograms m)) ∘ Prod.fst := by
      funext kv
      exact decide_eq_decide.mpr (by rw [minerPrograms, Std.TreeMap.mem_keys])
    rw [hmem]
    refine congrArg List.sum (map_congr_left fun kv hkv => ?_)
    have hval := Std.TreeMap.mem_toList_iff_getElem?_eq_some.mp (mem_filter.mp hkv).1
    have hbal := (balanceMap_summed current).2 kv.1
    rw [hval, Option.getD_some] at hbal
    rw [Function.comp_apply, ← hrep, ← hbal]
  rw [poolDebt_confirm hrep, ← hothers, ← sum_programRows hrep fun _ after => debt after]
  exact congrArg (· + _) hrows

theorem poolDebt_confirm_le :
    poolDebt (confirm m balances) ≤
      poolDebt balances + (landingDivergence m.accounts current).overpaySats := by
  have heach : ((minerPrograms m).map fun k => debt (confirm m balances k)).sum ≤
      ((minerPrograms m).map fun k =>
        debt (balances k) + overpayOf (balances k) (confirm m balances k)).sum := by
    refine sum_le_sum fun k _ => ?_
    simp only [overpayOf]
    omega
  rw [sum_map_add] at heach
  rw [poolDebt_confirm hrep, poolDebt_before (m := m) hrep, landingDivergence_overpaySats hrep]
  omega

end

end Landing

section Float
variable {r : PrismRewardManifest} {issued : List CarryForwardBalance} {policy : PayoutPolicy}
  {m : PayoutPolicyManifest} (run : PolicyRun r issued policy m)
include run

theorem delta_ge (k : String) :
    -max (programBalance issued k) 0 ≤ programBalance (m.minerAccounts.map (·.deltaRow)) k := by
  by_cases hk : ∃ a ∈ m.minerAccounts, a.programKey = k
  · obtain ⟨a, ha, rfl⟩ := hk
    have hrow : programBalance (m.minerAccounts.map (·.deltaRow)) a.programKey =
        (a.grossAmountSats.val : ℤ) - a.onchainAmountSats.val :=
      programBalance_of_mem (minerRows_nodup run) (mem_map_of_mem (f := (·.deltaRow)) ha)
    have hcand := run.candidate_eq ha
    rw [run.prior_eq ha] at hcand
    rw [hrow]
    rcases run.onchain_range ha with hzero | ⟨-, hle⟩ <;> omega
  · have hnone : programBalance (m.minerAccounts.map (·.deltaRow)) k = 0 := by
      refine programBalance_eq_zero fun b hb hbk => hk ?_
      obtain ⟨a, ha, rfl⟩ := mem_map.mp hb
      exact ⟨a, ha, hbk⟩
    omega

theorem overpayBound_eq :
    overpayBound issued = ((minerPrograms m).map fun k => max (programBalance issued k) 0).sum := by
  have hbound : overpayBound issued =
      ((balanceMap issued).keys.map fun k => max (programBalance issued k) 0).sum := by
    rw [overpayBound, values, ← Std.TreeMap.map_fst_toList_eq_keys, map_map, map_map]
    refine congrArg List.sum (map_congr_left fun kv hkv => ?_)
    have hbal := (balanceMap_summed issued).2 kv.1
    rw [Std.TreeMap.mem_toList_iff_getElem?_eq_some.mp hkv, Option.getD_some] at hbal
    rw [Function.comp_apply, Function.comp_apply, hbal]
  have hnd : (minerPrograms m).Nodup := Std.TreeMap.nodup_keys
  rw [hbound, ← sum_toFinset _ Std.TreeMap.nodup_keys, ← sum_toFinset _ hnd]
  refine Finset.sum_subset (fun k hk => ?_) fun k _ hk => ?_
  · rw [mem_toFinset, Std.TreeMap.mem_keys, (balanceMap_summed issued).1] at hk
    rw [mem_toFinset, mem_minerPrograms]
    exact mem_map.mp ((run.mem_programs k).mpr (.inr hk))
  · rw [mem_toFinset, Std.TreeMap.mem_keys, (balanceMap_summed issued).1] at hk
    rw [programBalance_eq_zero fun b hb hbk => hk ⟨b, hb, hbk⟩, max_self]

theorem overpay_le_bound {current : List CarryForwardBalance} {balances : Canonical}
    (hrep : Represents current balances) :
    (landingDivergence m.accounts current).overpaySats ≤ overpayBound issued := by
  rw [landingDivergence_overpaySats hrep, overpayBound_eq run]
  refine sum_le_sum fun k _ => ?_
  have hdelta := delta_ge run k
  rw [confirm_apply]
  simp only [overpayOf, debt]
  omega

end Float

/-- A block that confirms: the work it was issued as, its settlement, and the ledger's
rows at its confirmation. -/
structure Landing where
  reward : PrismRewardManifest
  issued : List CarryForwardBalance
  policy : PayoutPolicy
  manifest : PayoutPolicyManifest
  settled : applyPayoutPolicy reward issued policy = .ok manifest
  current : List CarryForwardBalance

def Landing.divergence (l : Landing) : LandingDivergence := landingDivergence l.manifest.accounts l.current

/-- Blocks confirmed one after another, each seen against the balances before it. -/
inductive Confirms : Canonical → List Landing → Canonical → Prop
  | done (balances : Canonical) : Confirms balances [] balances
  | next {balances final : Canonical} (l : Landing) {rest : List Landing}
      (observed : Represents l.current balances)
      (later : Confirms (confirm l.manifest balances) rest final) : Confirms balances (l :: rest) final

theorem Confirms.split {start final : Canonical} {pre post : List Landing} {l : Landing}
    (h : Confirms start (pre ++ l :: post) final) :
    ∃ before, Confirms start pre before ∧ Represents l.current before := by
  induction pre generalizing start with
  | nil =>
    cases h with
    | next _ observed later => exact ⟨start, .done start, observed⟩
  | cons p pre ih =>
    cases h with
    | next _ observed later =>
      obtain ⟨before, hpre, hrep⟩ := ih later
      exact ⟨before, .next p observed hpre, hrep⟩

theorem Confirms.poolDebt_le {start final : Canonical} {landings : List Landing} (h : Confirms start landings final) :
    poolDebt final ≤ poolDebt start + (landings.map fun l => overpayBound l.issued).sum := by
  induction h with
  | done balances => simp
  | next l observed later ih =>
    obtain ⟨run⟩ := applyPayoutPolicy_eq_ok l.settled
    have hstep := poolDebt_confirm_le (m := l.manifest) observed
    have hbound := overpay_le_bound run observed
    rw [map_cons, sum_cons]
    omega

end QbitPrism
