import Mathlib
import QbitPrism.Payout.Spelling

/-!
# The order of the prior balances

The policy reads the prior balances through `carry_forward_by_payout_program` only. The merged
balance and name of a program do not depend on the order of its rows; the spelling is the first
row's, and whether a running sum leaves `i128` may depend on the order too.
-/
namespace QbitPrism
open MachineInt Checked MergeByKey SortBy List

def PayoutIdentity.name (a : PayoutIdentity) : String ×ₗ String := toLex (a.orderKey, a.recipientId)

theorem PayoutIdentity.namedBefore_iff (a b : PayoutIdentity) :
    a.namedBefore b = true ↔ a.name < b.name := by
  simp [PayoutIdentity.namedBefore, PayoutIdentity.name, Prod.Lex.toLex_lt_toLex]

theorem PayoutIdentity.name_rename (entry row : PayoutIdentity) :
    (entry.rename row).name = min entry.name row.name := by
  unfold PayoutIdentity.rename
  split_ifs with hbefore
  · exact (min_eq_right (le_of_lt ((row.namedBefore_iff entry).mp hbefore))).symm
  · rw [PayoutIdentity.namedBefore_iff, not_lt] at hbefore
    exact (min_eq_left hbefore).symm

theorem PayoutIdentity.eq_of_name {a b : PayoutIdentity} (hname : a.name = b.name)
    (hprogram : a.p2mrProgramHex = b.p2mrProgramHex) : a = b := by
  cases a
  cases b
  simp_all [PayoutIdentity.name]

/-- The merged row of one program: spelled as the first of its rows, under the least name. -/
structure MergedRow (rows : List CarryForwardBalance) (merged : CarryForwardBalance) : Prop where
  spelled : rows.head?.map (·.p2mrProgramHex) = some merged.p2mrProgramHex
  named : IsLeast {n | ∃ row ∈ rows, row.name = n} merged.name

variable {overflow : PrismError} {s s' : CarryForwardBalance} {reward : U64}

theorem balanceMerger_named {b : CarryForwardBalance} (h : (balanceMerger overflow).add s b = .ok s') :
    s'.name = min s.name b.name := by
  simp only [balanceMerger, bind_eq_ok, pure_eq_ok] at h
  obtain ⟨balance, -, rfl⟩ := h
  exact PayoutIdentity.name_rename _ _

theorem MergedRow.first {b : CarryForwardBalance}
    (h : (balanceMerger overflow).add ((balanceMerger overflow).fresh b) b = .ok s) : MergedRow [b] s where
  spelled := congrArg some (balanceMerger_spelled h).symm
  named := by
    have hname : s.name = b.name := (balanceMerger_named h).trans (min_self b.name)
    refine ⟨⟨b, mem_cons_self, hname.symm⟩, ?_⟩
    rintro n ⟨row, hrow, rfl⟩
    rw [mem_singleton.mp hrow, hname]

theorem MergedRow.add {rows : List CarryForwardBalance} {b : CarryForwardBalance} (hs : MergedRow rows s)
    (h : (balanceMerger overflow).add s b = .ok s') :
    MergedRow (rows ++ [b]) s' where
  spelled := by
    rw [balanceMerger_spelled h, ← hs.spelled, List.head?_append]
    cases hhead : rows.head? with
    | none => exact absurd hs.spelled (by simp [hhead])
    | some first => rfl
  named := by
    rw [balanceMerger_named h]
    refine ⟨?_, ?_⟩
    · rcases min_choice s.name b.name with hmin | hmin
      · obtain ⟨row, hrow, hname⟩ := hs.named.1
        exact ⟨row, mem_append_left _ hrow, hname.trans hmin.symm⟩
      · exact ⟨b, by simp, hmin.symm⟩
    · rintro n ⟨row, hrow, rfl⟩
      rcases mem_append.mp hrow with hrow | hrow
      · exact (min_le_left _ _).trans (hs.named.2 ⟨row, hrow, rfl⟩)
      · rw [mem_singleton.mp hrow]
        exact min_le_right _ _

def programRowsOf (balances : List CarryForwardBalance) (program : String) : List CarryForwardBalance :=
  balances.filter fun b => b.programKey = program

section Merged
variable {priors order : List CarryForwardBalance} {m m' : Std.TreeMap String CarryForwardBalance}
  {program : String} {b b' : CarryForwardBalance}

theorem carryForward_mergedRow (h : carryForwardByPayoutProgram priors = .ok m)
    (hb : m[program]? = some b) : MergedRow (programRowsOf priors program) b :=
  Merger.merge_fiber_induction (fun _ _ => MergedRow.first) (fun _ _ _ _ hs hadd => hs.add hadd) h hb

theorem programBalance_perm (h : order.Perm priors) (program : String) :
    programBalance order program = programBalance priors program :=
  ((h.filter _).map _).sum_eq

theorem merged_mem_iff (hperm : order.Perm priors) (h : MergedBalances priors m)
    (h' : MergedBalances order m') (program : String) : program ∈ m ↔ program ∈ m' := by
  rw [h.programs, h'.programs]
  simp only [hperm.mem_iff]

theorem merged_eq_but_spelling (hperm : order.Perm priors) (h : carryForwardByPayoutProgram priors = .ok m)
    (h' : carryForwardByPayoutProgram order = .ok m') (hb : m[program]? = some b) (hb' : m'[program]? = some b') :
    b'.balanceSats = b.balanceSats ∧ b'.name = b.name := by
  constructor
  · apply Signed.ext
    rw [(balanceMerger_eq_ok h).getElem?_balance hb, (balanceMerger_eq_ok h').getElem?_balance hb',
      programBalance_perm hperm]
  · have hnamed := (carryForward_mergedRow h hb).named
    have hnamed' := (carryForward_mergedRow h' hb').named
    have hsame : {n | ∃ row ∈ programRowsOf order program, row.name = n} =
        {n | ∃ row ∈ programRowsOf priors program, row.name = n} := by
      ext n
      simp only [Set.mem_ofPred_eq, programRowsOf, (hperm.filter _).mem_iff]
    rw [hsame] at hnamed'
    exact hnamed'.unique hnamed

end Merged

section Seeds
variable {priors order : List CarryForwardBalance} {m m' : Std.TreeMap String CarryForwardBalance}
  {entitlements : List WeightedEntitlement} {amounts : List (WeightedEntitlement × U64)}

theorem pushPriorSeeds_eq {balances : List CarryForwardBalance} {seen : List String}
    (hnd : (balances.map (·.programKey)).Nodup) :
    pushPriorSeeds balances seen =
      ((balances.filter fun b => b.programKey ∉ seen).map priorSeed,
        ((balances.filter fun b => b.programKey ∉ seen).map (·.programKey)).reverse ++ seen) := by
  induction balances generalizing seen with
  | nil => rfl
  | cons b rest ih =>
    obtain ⟨hb, hrest⟩ := nodup_cons.mp hnd
    rw [pushPriorSeeds]
    split_ifs with hseen
    · rw [ih hrest, filter_cons_of_neg (by simpa using hseen)]
    · have hfilter : (rest.filter fun x => x.programKey ∉ b.programKey :: seen) =
          rest.filter fun x => x.programKey ∉ seen := by
        refine filter_congr fun x hx => decide_eq_decide.mpr ?_
        have hne : x.programKey ≠ b.programKey := fun heq => hb (mem_map.mpr ⟨x, hx, heq⟩)
        simp [hne]
      rw [ih hrest, hfilter, filter_cons_of_pos (by simpa using hseen)]
      simp

theorem filter_toList_eq {p : String → Bool} (h : ∀ k, p k = true → m[k]? = m'[k]?) :
    m.toList.filter (fun kv => p kv.1) = m'.toList.filter (fun kv => p kv.1) := by
  have hequiv : (m.filter fun k _ => p k).Equiv (m'.filter fun k _ => p k) := by
    refine Std.TreeMap.Equiv.of_forall_constGet?_eq fun k => ?_
    rw [Std.TreeMap.getElem?_filter', Std.TreeMap.getElem?_filter']
    cases hp : p k with
    | true => rw [h k hp]
    | false => cases m[k]? <;> cases m'[k]? <;> rfl
  simpa only [Std.TreeMap.toList_filter] using hequiv.toList_eq

theorem filter_values_eq (hm : ∀ k (b : CarryForwardBalance), m[k]? = some b → b.programKey = k) (p : String → Bool) :
    (values m).filter (fun b => p b.programKey) = (m.toList.filter fun kv => p kv.1).map Prod.snd := by
  rw [values, filter_map]
  refine congrArg (List.map Prod.snd) (filter_congr fun kv hkv => ?_)
  rw [Function.comp_apply, hm kv.1 kv.2 (Std.TreeMap.mem_toList_iff_getElem?_eq_some.mp hkv)]

theorem openAccounts_perm (hperm : order.Perm priors) (hm : carryForwardByPayoutProgram priors = .ok m)
    (hm' : carryForwardByPayoutProgram order = .ok m')
    (hcarried : ∀ k, (∀ e ∈ entitlements, e.programKey ≠ k) → m'[k]? = m[k]?) :
    openAccounts entitlements order reward = openAccounts entitlements priors reward := by
  have hbal := balanceMerger_eq_ok hm
  have hbal' := balanceMerger_eq_ok hm'
  have hprior : ∀ k : String, m'[k]?.map (·.balanceSats) = m[k]?.map (·.balanceSats) := by
    intro k
    have hmem := merged_mem_iff hperm hbal hbal' k
    simp only [Std.TreeMap.mem_iff_isSome_getElem?] at hmem
    cases hb : m[k]? with
    | none =>
      rw [hb] at hmem
      rw [Option.not_isSome_iff_eq_none.mp (hmem.not.mp (by simp))]
    | some b =>
      rw [hb] at hmem
      obtain ⟨b', hb'⟩ := Option.isSome_iff_exists.mp (hmem.mp rfl)
      rw [hb']
      exact congrArg some (merged_eq_but_spelling hperm hm hm' hb hb').1
  cases hmerged : aggregateEntitlementsByPayoutProgram entitlements with
  | error e => simp only [openAccounts, hmerged, error_bind]
  | ok merged =>
    cases hamounts : allocateWeightedAmounts reward merged with
    | error e => simp only [openAccounts, hmerged, ok_bind, hamounts, error_bind]
    | ok amounts =>
      have hseed : entitlementSeed m' = entitlementSeed m := by
        funext x
        simp only [entitlementSeed, hprior]
      have hunentitled : ∀ k, decide (k ∉ amounts.map fun x => x.1.programKey) = true →
          m'[k]? = m[k]? := by
        intro k hk
        refine hcarried k fun e he heq => of_decide_eq_true hk ?_
        rw [(allocateWeightedAmounts_eq_ok hamounts).programs, (aggregateEntitlements_eq_ok hmerged).programs]
        exact ⟨e, he, heq⟩
      have hnd : ∀ {m : Std.TreeMap String CarryForwardBalance} {priors : List CarryForwardBalance},
          MergedBalances priors m → ((values m).map (·.programKey)).Nodup := fun h =>
        values_map_key (fun b : CarryForwardBalance => b.programKey) h.programKey ▸
          Std.TreeMap.nodup_keys
      have hpushed : pushPriorSeeds (values m') (amounts.map fun x => x.1.programKey) =
          pushPriorSeeds (values m) (amounts.map fun x => x.1.programKey) := by
        rw [pushPriorSeeds_eq (hnd hbal), pushPriorSeeds_eq (hnd hbal'), filter_values_eq hbal.programKey fun k =>
          decide (k ∉ amounts.map fun x => x.1.programKey), filter_values_eq hbal'.programKey fun k => decide (k ∉
          amounts.map fun x => x.1.programKey), filter_toList_eq hunentitled]
      simp only [openAccounts, hmerged, ok_bind, hamounts, hm, hm', hseed, hpushed]

end Seeds

def programCredits (balances : List CarryForwardBalance) (program : String) : ℤ :=
  ((programRowsOf balances program).map fun b => max b.balanceSats.val 0).sum

def programDebits (balances : List CarryForwardBalance) (program : String) : ℤ :=
  ((programRowsOf balances program).map fun b => max (-b.balanceSats.val) 0).sum

theorem programBalance_eq (balances : List CarryForwardBalance) (program : String) :
    programBalance balances program = programCredits balances program - programDebits balances program := by
  refine eq_sub_of_add_eq ?_
  rw [programBalance, programDebits, programRowsOf, ← sum_map_add]
  refine congrArg List.sum (map_congr_left fun b _ => ?_)
  omega

section Sums
variable {priors order part : List CarryForwardBalance} {program : String}

theorem sum_max_le_of_sublist (f : CarryForwardBalance → ℤ) (h : part.Sublist priors) :
    ((programRowsOf part program).map fun b => max (f b) 0).sum ≤
      ((programRowsOf priors program).map fun b => max (f b) 0).sum := by
  refine ((h.filter _).map _).sum_le_sum fun z hz => ?_
  obtain ⟨b, -, rfl⟩ := mem_map.mp hz
  exact le_max_right _ _

theorem sum_max_nonneg (f : CarryForwardBalance → ℤ) (rows : List CarryForwardBalance) :
    0 ≤ (rows.map fun b => max (f b) 0).sum := by
  refine sum_nonneg fun z hz => ?_
  obtain ⟨b, -, rfl⟩ := mem_map.mp hz
  exact le_max_right _ _

theorem runningBalancesFit_of_parts
    (h : ∀ program, programCredits priors program < 2 ^ 127 ∧ programDebits priors program ≤ 2 ^ 127)
    (hperm : order.Perm priors) : RunningBalancesFit order := by
  intro done b hpart
  have hcredits : programCredits (done ++ [b]) b.programKey ≤ programCredits priors b.programKey := by
    rw [show programCredits priors b.programKey = programCredits order b.programKey from
      (((hperm.filter _).map _).sum_eq).symm]
    exact sum_max_le_of_sublist _ hpart.sublist
  have hdebits : programDebits (done ++ [b]) b.programKey ≤ programDebits priors b.programKey := by
    rw [show programDebits priors b.programKey = programDebits order b.programKey from
      (((hperm.filter _).map _).sum_eq).symm]
    exact sum_max_le_of_sublist _ hpart.sublist
  have hcredits0 : 0 ≤ programCredits (done ++ [b]) b.programKey := sum_max_nonneg _ _
  have hdebits0 : 0 ≤ programDebits (done ++ [b]) b.programKey := sum_max_nonneg _ _
  have hfits := h b.programKey
  rw [FitsI128, programBalance_eq]
  constructor <;> omega

theorem fits_of_carryForward {rest : List CarryForwardBalance} {m : Std.TreeMap String CarryForwardBalance}
    (h : carryForwardByPayoutProgram (part ++ rest) = .ok m) (program : String) :
    FitsI128 (programBalance part program) := by
  simp only [carryForwardByPayoutProgram, Merger.merge, foldlM_append, bind_eq_ok] at h
  obtain ⟨m₁, hpart, -⟩ := h
  rw [← (balanceMerger_eq_ok hpart).balance program]
  cases m₁[program]? with
  | none => exact ⟨by decide, by decide⟩
  | some b => exact ⟨b.balanceSats.lower, b.balanceSats.upper⟩

theorem programBalance_filter (p : CarryForwardBalance → Bool) (f : CarryForwardBalance → ℤ)
    (hp : ∀ b, (if p b then b.balanceSats.val else 0) = f b) :
    programBalance (priors.filter p) program = ((programRowsOf priors program).map f).sum := by
  induction priors with
  | nil => rfl
  | cons b rest ih =>
    have hb := hp b
    by_cases hkey : b.programKey = program <;> cases hpb : p b <;>
      simp_all [programBalance, programRowsOf]

end Sums

/-- No order of the balances overflows, and the balances of a program that has no entitlement in
the window spell it one way. -/
structure OrderFree (entitlements : List WeightedEntitlement) (priors : List CarryForwardBalance) : Prop where
  fits : ∀ program, programCredits priors program < 2 ^ 127 ∧ programDebits priors program ≤ 2 ^ 127
  spelled : ∀ b ∈ priors, ∀ b' ∈ priors, b.programKey = b'.programKey →
    (∀ e ∈ entitlements, e.programKey ≠ b.programKey) → b.p2mrProgramHex = b'.p2mrProgramHex

section Policy
variable {r : PrismRewardManifest} {policy : PayoutPolicy} {priors order : List CarryForwardBalance}
  {manifest : PayoutPolicyManifest}

theorem OrderFree.openAccounts_eq {entitlements : List WeightedEntitlement} (h : OrderFree entitlements priors)
    (hperm : order.Perm priors) :
    openAccounts entitlements order reward = openAccounts entitlements priors reward := by
  obtain ⟨m, hm⟩ := balanceMerger_isOk .payoutPolicyOverflow
    (runningBalancesFit_of_parts h.fits (List.Perm.refl priors))
  obtain ⟨m', hm'⟩ := balanceMerger_isOk .payoutPolicyOverflow (runningBalancesFit_of_parts h.fits hperm)
  refine openAccounts_perm hperm hm hm' fun k hk => ?_
  have hmem := merged_mem_iff hperm (balanceMerger_eq_ok hm) (balanceMerger_eq_ok hm') k
  simp only [Std.TreeMap.mem_iff_isSome_getElem?] at hmem
  cases hb : m[k]? with
  | none =>
    rw [hb] at hmem
    exact Option.not_isSome_iff_eq_none.mp (hmem.not.mp (by simp))
  | some b =>
    rw [hb] at hmem
    obtain ⟨b', hb'⟩ := Option.isSome_iff_exists.mp (hmem.mp rfl)
    obtain ⟨hbalance, hname⟩ := merged_eq_but_spelling hperm hm hm' hb hb'
    have hspelled : b'.p2mrProgramHex = b.p2mrProgramHex := by
      obtain ⟨first, hfirst, heq⟩ := Option.map_eq_some_iff.mp (carryForward_mergedRow hm hb).spelled
      obtain ⟨first', hfirst', heq'⟩ := Option.map_eq_some_iff.mp (carryForward_mergedRow hm' hb').spelled
      obtain ⟨hmem₁, hkey⟩ := mem_filter.mp (mem_of_head? hfirst)
      obtain ⟨hmem₂, hkey'⟩ := mem_filter.mp (mem_of_head? hfirst')
      have hkey := of_decide_eq_true hkey
      have hkey' := of_decide_eq_true hkey'
      rw [← heq, ← heq']
      exact h.spelled first' (hperm.mem_iff.mp hmem₂) first hmem₁ (hkey'.trans hkey.symm)
        (hkey' ▸ hk)
    have hidentity := PayoutIdentity.eq_of_name hname hspelled
    rw [hb']
    cases b
    cases b'
    simp_all

theorem applyPayoutPolicy_congr
    (h : ∀ reward, openAccounts r.entitlements order reward = openAccounts r.entitlements priors reward) :
    applyPayoutPolicy r order policy = applyPayoutPolicy r priors policy := by
  simp only [applyPayoutPolicy, h]

theorem carryForward_of_applyPayoutPolicy (h : applyPayoutPolicy r priors policy = .ok manifest) :
    ∃ m, carryForwardByPayoutProgram priors = .ok m := by
  simp only [applyPayoutPolicy, openAccounts, bind_eq_ok] at h
  obtain ⟨_, -, _, -, _, -, _, -, _, -, _, ⟨_, -, _, -, m, hm, -⟩, -⟩ := h
  exact ⟨m, hm⟩

variable {a : PayoutPolicyAccount}

theorem openAccounts_spelled_first {entitlements : List WeightedEntitlement} {opened : OpenedAccounts}
    (h : openAccounts entitlements priors reward = .ok opened) {program : String}
    (hcarried : ∀ e ∈ entitlements, e.programKey ≠ program) (ha : a ∈ opened.accounts) (hkey : a.programKey = program) :
    (programRowsOf priors program).head?.map (·.p2mrProgramHex) = some a.p2mrProgramHex := by
  simp only [openAccounts, bind_eq_ok, pure_eq_ok] at h
  obtain ⟨merged, hmerged, amounts, hamounts, m, hm, accounts, haccounts, rfl⟩ := h
  obtain ⟨seed, hseed, hopen⟩ := mem_of_mapM_ok haccounts ha
  have hidentity := (openAccount_eq_ok hopen).2.1
  rw [PayoutIdentity.programKey, hidentity] at hkey
  rw [hidentity]
  rcases mem_append.mp hseed with hseed | hseed
  · obtain ⟨x, hx, rfl⟩ := mem_map.mp hseed
    have hentitled : x.1.programKey ∈ amounts.map fun x => x.1.programKey := mem_map_of_mem hx
    rw [(allocateWeightedAmounts_eq_ok hamounts).programs,
      (aggregateEntitlements_eq_ok hmerged).programs] at hentitled
    obtain ⟨e, he, heq⟩ := hentitled
    exact absurd (heq.trans hkey) (hcarried e he)
  · obtain ⟨b, hb, rfl⟩ := pushPriorSeeds_mem hseed
    obtain ⟨k, hk⟩ := mem_values.mp hb
    have hprogram : k = program := ((balanceMerger_eq_ok hm).programKey k b hk).symm.trans hkey
    exact (carryForward_mergedRow hm (hprogram ▸ hk)).spelled

theorem applyPayoutPolicy_spelled_first (h : applyPayoutPolicy r priors policy = .ok manifest) {program : String}
    (hcarried : ∀ e ∈ r.entitlements, e.programKey ≠ program) (ha : a ∈ manifest.minerAccounts)
    (hkey : a.programKey = program) :
    (programRowsOf priors program).head?.map (·.p2mrProgramHex) = some a.p2mrProgramHex := by
  simp only [applyPayoutPolicy, bind_eq_ok, okOr_eq_ok, require_eq_ok, pure_eq_ok,
    Unsigned.checkedSub_eq_some, exists_and_left, exists_const] at h
  obtain ⟨floor, -, fee, -, -, reward, -, -, opened, hopened, plan, hplan, settled, hsettled,
    accounts, haccounts, sum, -, -, rfl⟩ := h
  have hopen := openAccounts_eq_ok hopened
  obtain ⟨settled', hsettled', hspec⟩ := settle_plan r.coinbaseValueSats hopen.isOpen
    hopen.identities_nodup (planOnchain_eq_ok hopen.identities_nodup hplan)
  cases hsettled.symm.trans hsettled'
  obtain ⟨rfl, -⟩ := pushPoolFeeAccount_eq_ok haccounts
  obtain ⟨hmem, hminer⟩ := mem_filter.mp ha
  rcases mem_append.mp ((mem_sortBy _).mp hmem) with hmem | hmem
  · exact openAccounts_spelled_first hopened hcarried (a := a.unpaid)
      (hspec.unpaid ▸ mem_map_of_mem hmem) hkey
  · obtain ⟨f, -, rfl⟩ := mem_map.mp hmem
    cases of_decide_eq_true hminer

theorem spelled_of_first {b : CarryForwardBalance} (hb : b ∈ priors)
    (h : ∀ order, order.Perm priors → applyPayoutPolicy r order policy = .ok manifest)
    (hcarried : ∀ e ∈ r.entitlements, e.programKey ≠ b.programKey) (ha : a ∈ manifest.minerAccounts)
    (hkey : a.programKey = b.programKey) : b.p2mrProgramHex = a.p2mrProgramHex := by
  have hspelled := applyPayoutPolicy_spelled_first (h (b :: priors.erase b) (perm_cons_erase hb).symm)
    hcarried ha hkey
  rw [programRowsOf, filter_cons_of_pos (by simp)] at hspelled
  exact Option.some.inj hspelled

theorem OrderFree.of_applyPayoutPolicy
    (h : ∀ order, order.Perm priors → applyPayoutPolicy r order policy = .ok manifest) :
    OrderFree r.entitlements priors where
  fits program := by
    constructor
    · -- The order that merges the credits first.
      let credits : CarryForwardBalance → Bool := fun b => 0 ≤ b.balanceSats.val
      obtain ⟨m, hm⟩ := carryForward_of_applyPayoutPolicy (h _ (filter_append_perm credits priors))
      have hsum : programBalance (priors.filter credits) program = programCredits priors program := by
        refine programBalance_filter credits _ fun b => ?_
        simp only [credits, decide_eq_true_eq]
        split_ifs <;> omega
      exact hsum ▸ (fits_of_carryForward hm program).2
    · let debits : CarryForwardBalance → Bool := fun b => b.balanceSats.val < 0
      obtain ⟨m, hm⟩ := carryForward_of_applyPayoutPolicy (h _ (filter_append_perm debits priors))
      have hsum : programBalance (priors.filter debits) program = -programDebits priors program := by
        rw [programDebits, sum_neg, map_map]
        refine programBalance_filter debits _ fun b => ?_
        simp only [debits, decide_eq_true_eq, Function.comp_apply]
        split_ifs <;> omega
      have hfits := (fits_of_carryForward hm program).1
      rw [hsum] at hfits
      exact neg_le_neg_iff.mp hfits
  spelled b hb b' hb' hkey hcarried := by
    obtain ⟨run⟩ := applyPayoutPolicy_eq_ok (h priors (List.Perm.refl priors))
    obtain ⟨a, ha, hprogram⟩ := mem_map.mp ((run.mem_programs b.programKey).mpr (.inr ⟨b, hb, rfl⟩))
    rw [spelled_of_first hb h hcarried ha hprogram]
    exact (spelled_of_first hb' h (hkey ▸ hcarried) ha (hprogram.trans hkey)).symm

end Policy

end QbitPrism
