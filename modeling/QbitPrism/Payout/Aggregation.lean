import Mathlib
import QbitPrism.Lib.MergeByKey
import QbitPrism.Payout.Types

/-!
# Merging payout rows by program

Entitlements and carried balances of one payout program, whatever the case of its
hex and whatever names it is listed under, settle as one account. The merged row
keeps the least `(order_key, recipient_id)` of its rows and the first row's
spelling of the program.
-/
namespace QbitPrism
open MachineInt Checked MergeByKey

def PayoutIdentity.rename (entry row : PayoutIdentity) : PayoutIdentity :=
  if row.namedBefore entry then
    { entry with recipientId := row.recipientId, orderKey := row.orderKey }
  else entry

@[simp] theorem PayoutIdentity.rename_p2mrProgramHex (entry row : PayoutIdentity) :
    (entry.rename row).p2mrProgramHex = entry.p2mrProgramHex := by
  unfold PayoutIdentity.rename
  split_ifs <;> rfl

def entitlementMerger : Merger String WeightedEntitlement WeightedEntitlement PrismError where
  key e := e.programKey
  fresh e := { e with weight := 0 }
  add entry e := do
    let weight ← okOr (entry.weight.checkedAdd e.weight) .payoutPolicyOverflow
    pure { entry.toPayoutIdentity.rename e.toPayoutIdentity with weight }

/-- Balances are merged in two places that differ in what an overflow does. -/
def balanceMerger (overflow : PrismError) :
    Merger String CarryForwardBalance CarryForwardBalance PrismError where
  key b := b.programKey
  fresh b := { b with balanceSats := 0 }
  add entry b := do
    let balanceSats ← okOr (entry.balanceSats.checkedAdd b.balanceSats) overflow
    pure { entry.toPayoutIdentity.rename b.toPayoutIdentity with balanceSats }

def aggregateEntitlementsByPayoutProgram (entitlements : List WeightedEntitlement) :
    Except PrismError (List WeightedEntitlement) := do
  let byProgram : Std.TreeMap String WeightedEntitlement ← entitlementMerger.merge entitlements
  pure (values byProgram)

def carryForwardByPayoutProgram (balances : List CarryForwardBalance) :
    Except PrismError (Std.TreeMap String CarryForwardBalance) :=
  (balanceMerger .payoutPolicyOverflow).merge balances

def programWeight (entitlements : List WeightedEntitlement) (program : String) : ℕ :=
  ((entitlements.filter fun e => e.programKey = program).map fun e => e.weight.val).sum

def programBalance (balances : List CarryForwardBalance) (program : String) : ℤ :=
  ((balances.filter fun b => b.programKey = program).map fun b => b.balanceSats.val).sum

theorem programBalance_append (xs ys : List CarryForwardBalance) (program : String) :
    programBalance (xs ++ ys) program = programBalance xs program + programBalance ys program := by
  simp only [programBalance, List.filter_append, List.map_append, List.sum_append]

variable {balances : List CarryForwardBalance} {overflow : PrismError} {b : CarryForwardBalance}
  {entitlements : List WeightedEntitlement} {m : Std.TreeMap String CarryForwardBalance}

theorem programBalance_eq_zero {program : String} (h : ∀ b ∈ balances, b.programKey ≠ program) :
    programBalance balances program = 0 := by
  rw [programBalance, List.filter_eq_nil_iff.mpr (by simpa using h)]
  rfl

theorem entitlementMerger_add {e s s' : WeightedEntitlement} (h : entitlementMerger.add s e = .ok s') :
    s'.weight.val = s.weight.val + e.weight.val ∧ s'.programKey = s.programKey := by
  simp only [entitlementMerger, bind_eq_ok, okOr_eq_ok, pure_eq_ok, Unsigned.checkedAdd_eq_some] at h
  obtain ⟨weight, hweight, rfl⟩ := h
  exact ⟨hweight, congrArg payoutProgramKey (PayoutIdentity.rename_p2mrProgramHex _ _)⟩

theorem balanceMerger_add {s s' : CarryForwardBalance} (h : (balanceMerger overflow).add s b = .ok s') :
    s'.balanceSats.val = s.balanceSats.val + b.balanceSats.val ∧ s'.programKey = s.programKey := by
  simp only [balanceMerger, bind_eq_ok, okOr_eq_ok, pure_eq_ok, Signed.checkedAdd_eq_some] at h
  obtain ⟨balance, hbalance, rfl⟩ := h
  exact ⟨hbalance, congrArg payoutProgramKey (PayoutIdentity.rename_p2mrProgramHex _ _)⟩

/-- Merged entitlements: one per program, with the program's whole weight. -/
structure Aggregated (entitlements merged : List WeightedEntitlement) : Prop where
  nodup : (merged.map (·.programKey)).Nodup
  programs : ∀ k, k ∈ merged.map (·.programKey) ↔ ∃ e ∈ entitlements, e.programKey = k
  weight : ∀ e ∈ merged, e.weight.val = programWeight entitlements e.programKey
  total : (merged.map fun e => e.weight.val).sum = (entitlements.map fun e => e.weight.val).sum

theorem aggregateEntitlements_eq_ok {merged : List WeightedEntitlement}
    (h : aggregateEntitlementsByPayoutProgram entitlements = .ok merged) : Aggregated entitlements merged := by
  simp only [aggregateEntitlementsByPayoutProgram, bind_eq_ok, pure_eq_ok] at h
  obtain ⟨m, hm, rfl⟩ := h
  have hsum := Merger.merge_summed (M := entitlementMerger) (μ := fun e => e.weight.val) (ν := fun e => e.weight.val)
    (fun _ => Unsigned.val_zero) (fun _ _ _ h => (entitlementMerger_add h).1) hm
  have hkey : ∀ k (s : WeightedEntitlement), m[k]? = some s → s.programKey = k := fun k s hs =>
    Merger.merge_invariant (M := entitlementMerger) (fun k s => s.programKey = k) (fun _ _ => rfl)
      (fun _ _ _ _ hadd hP => (entitlementMerger_add hadd).2.trans hP) hm hs
  have hkeys := values_map_key (fun e : WeightedEntitlement => e.programKey) hkey
  refine ⟨hkeys ▸ Std.TreeMap.nodup_keys, fun k => ?_, fun e he => ?_, ?_⟩
  · rw [hkeys, Std.TreeMap.mem_keys]
    exact hsum.keys k
  · obtain ⟨k, hk⟩ := mem_values.mp he
    have := hsum.perKey k
    rw [hk] at this
    rw [hkey k e hk]
    exact this
  · rw [values, List.map_map]
    exact hsum.total

theorem programWeight_le_total (entitlements : List WeightedEntitlement) (program : String) :
    programWeight entitlements program ≤ (entitlements.map fun e => e.weight.val).sum :=
  (List.filter_sublist.map _).sum_le_sum fun _ _ => Nat.zero_le _

theorem aggregateEntitlements_isOk (h : (entitlements.map fun e => e.weight.val).sum < 2 ^ 128) :
    ∃ merged, aggregateEntitlementsByPayoutProgram entitlements = .ok merged := by
  obtain ⟨m, hm⟩ : ∃ m : Std.TreeMap String WeightedEntitlement,
      entitlementMerger.merge entitlements = .ok m := by
    refine Merger.merge_isOk_of_lt (μ := fun e => e.weight.val) (fun _ => Unsigned.val_zero)
      (fun _ _ _ h => (entitlementMerger_add h).1) ?_ h
    intro s r hfit
    have hadd : s.weight.checkedAdd r.weight = some ⟨_, hfit⟩ := Unsigned.checkedAdd_eq_some.mpr rfl
    exact ⟨_, by simp only [entitlementMerger, hadd, okOr_some, ok_bind]; rfl⟩
  exact ⟨values m, by simp only [aggregateEntitlementsByPayoutProgram, hm, ok_bind]; rfl⟩

/-- Merged balances: one per program, with the program's whole balance. -/
structure MergedBalances (balances : List CarryForwardBalance)
    (m : Std.TreeMap String CarryForwardBalance) : Prop where
  programs : ∀ k, k ∈ m ↔ ∃ b ∈ balances, b.programKey = k
  programKey : ∀ k (b : CarryForwardBalance), m[k]? = some b → b.programKey = k
  balance : ∀ k, m[k]?.elim 0 (fun b => b.balanceSats.val) = programBalance balances k
  total : valueSum (fun b => b.balanceSats.val) m = (balances.map fun b => b.balanceSats.val).sum

theorem balanceMerger_eq_ok (h : (balanceMerger overflow).merge balances = .ok m) : MergedBalances balances m := by
  have hsum := Merger.merge_summed (M := balanceMerger overflow) (μ := fun b => b.balanceSats.val)
    (ν := fun b => b.balanceSats.val) (fun _ => Signed.val_zero)
    (fun _ _ _ h => (balanceMerger_add h).1) h
  refine ⟨hsum.keys, fun k s hs => ?_, hsum.perKey, hsum.total⟩
  exact Merger.merge_invariant (M := balanceMerger overflow) (fun k s => s.programKey = k)
    (fun _ _ => rfl) (fun _ _ _ _ hadd hP => (balanceMerger_add hadd).2.trans hP) h hs

theorem MergedBalances.getElem?_balance (h : MergedBalances balances m) {k : String} (hb : m[k]? = some b) :
    b.balanceSats.val = programBalance balances k := by
  have := h.balance k
  rw [hb] at this
  exact this

/-- The values an `i128` holds. -/
def FitsI128 (z : ℤ) : Prop := -2 ^ 127 ≤ z ∧ z < 2 ^ 127

theorem FitsI128.exists_val {z : ℤ} (h : FitsI128 z) : ∃ a : I128, a.val = z := ⟨⟨z, h.1, h.2⟩, rfl⟩

def RunningBalancesFit (balances : List CarryForwardBalance) : Prop :=
  ∀ done b, done ++ [b] <+: balances → FitsI128 (programBalance (done ++ [b]) b.programKey)

theorem balanceMerger_isOk (overflow : PrismError) (h : RunningBalancesFit balances) :
    ∃ m : Std.TreeMap String CarryForwardBalance, (balanceMerger overflow).merge balances = .ok m := by
  refine Merger.merge_isOk (M := balanceMerger overflow) (μ := fun b => b.balanceSats.val)
    (ν := fun b => b.balanceSats.val) (fun _ => Signed.val_zero)
    (fun _ _ _ h => (balanceMerger_add h).1) ?_
  intro done b s hpre hs
  have hs' : s.balanceSats.val = programBalance done b.programKey := hs
  have hfit := h done b hpre
  have hone : programBalance [b] b.programKey = b.balanceSats.val := by simp [programBalance]
  rw [programBalance_append, hone, ← hs'] at hfit
  obtain ⟨sum, hsum⟩ := hfit.exists_val
  have hadd : s.balanceSats.checkedAdd b.balanceSats = some sum := Signed.checkedAdd_eq_some.mpr hsum
  exact ⟨_, by simp only [balanceMerger, hadd, okOr_some, ok_bind]; rfl⟩

end QbitPrism
