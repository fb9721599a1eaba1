import Mathlib
import QbitPrism.Audit.Agree
import QbitPrism.Audit.Soundness
import QbitPrism.Payout.Spelling

/-!
# The letter case of a payout program

Where every program is given in lower case, what the builder makes is accepted. A program in
another case is merged, normalised and paid like the lower-case one, but neither the coverage
check nor the fee accounting finds it again.
-/
namespace QbitPrism
open MachineInt Checked SortBy ByteReader List

def IsProgramHex (programHex : String) : Prop :=
  programHex.toList.length = 64 ∧ ∀ c ∈ programHex.toList, ∃ n < 16, c = Hex.digit n

theorem IsProgramHex.payoutProgramKey_eq {programHex : String} (h : IsProgramHex programHex) :
    payoutProgramKey programHex = programHex := by
  have hdigit : ∀ n < 16, (Hex.digit n).toLower = Hex.digit n := by
    intro n hn
    interval_cases n <;> rfl
  apply String.toList_inj.mp
  rw [payoutProgramKey, String.toLower, String.toList_map]
  refine (map_congr_left ?_).trans (map_id _)
  intro c hc
  obtain ⟨n, hn, rfl⟩ := h.2 c hc
  exact hdigit n hn

theorem isProgramHex_encode (program : Bytes 32) : IsProgramHex (Hex.encode program.toList) := by
  rw [IsProgramHex, Hex.encode, String.toList_ofList]
  refine ⟨?_, ?_⟩
  · simp [length_flatMap, Hex.byteDigits, List.Vector.toList_length]
  · intro c hc
    obtain ⟨b, -, hb⟩ := mem_flatMap.mp hc
    have hb256 := b.toNat_lt
    simp only [Hex.byteDigits, mem_cons, not_mem_nil, or_false] at hb
    rcases hb with rfl | rfl
    · exact ⟨_, by omega, rfl⟩
    · exact ⟨_, Nat.mod_lt _ (by norm_num), rfl⟩

structure CtvSettlementInput.Spells (P : String → Prop) (input : CtvSettlementInput) : Prop where
  shares : ∀ share ∈ input.shares, P share.p2mrProgramHex
  priors : ∀ balance ∈ input.priorBalances, P balance.p2mrProgramHex
  fee : ∀ fee ∈ input.payoutPolicy.poolFeePolicy, P fee.p2mrProgramHex

section
variable {ctx : AuditContext} {input : CtvSettlementInput} {body : AuditBundleBody}
  {coinbaseKey ledgerKey : ManifestSigningKey ctx.toCrypto} {parallelism : Parallelism}

theorem buildAuditBundleBody_payouts
    (h : buildAuditBundleBodyWithCtvSettlementOptionsParallel ctx input coinbaseKey ledgerKey parallelism = .ok body) :
    ∃ rewardManifest settled,
      buildPrismRewardManifestWithCut ctx.toCrypto input.shares input.foundBlock input.windowCut =
        .ok rewardManifest ∧
      settlePayouts input rewardManifest = .ok settled ∧
      body.payoutPolicyManifest = settled.payoutPolicyManifest := by
  simp only [buildAuditBundleBodyWithCtvSettlementOptionsParallel, bind_eq_ok, pure_eq_ok] at h
  obtain ⟨-, -, rewardManifest, hreward, settled, hsettled, _, -, _, -, _, -, _, -, _, -, rfl⟩ := h
  exact ⟨rewardManifest, settled, buildPrismRewardManifestParallel_eq_ok hreward, hsettled, rfl⟩

theorem buildPrismRewardManifestWithCut_entitlements {crypto : Crypto} {shares : List AcceptedShare}
    {foundBlock : FoundBlock} {cut : Option WindowCut} {manifest : PrismRewardManifest}
    (h : buildPrismRewardManifestWithCut crypto shares foundBlock cut = .ok manifest) :
    ∃ window, computePrismWindowInCut shares foundBlock cut = .ok window ∧
      manifest.entitlements = window.entitlements := by
  simp only [buildPrismRewardManifestWithCut, bind_eq_ok, pure_eq_ok] at h
  obtain ⟨window, hwindow, _, -, _, -, rfl⟩ := h
  exact ⟨window, hwindow, rfl⟩

/-- What is built from programs in lower case is accepted, whatever the mode, the fee, the cut and
the number of workers. -/
theorem verifyAuditParts_accepts_built (hprograms : input.Spells IsProgramHex)
    (h : buildAuditBundleBodyWithCtvSettlementOptionsParallel ctx input coinbaseKey ledgerKey parallelism = .ok body) :
    ∃ report, verifyAuditParts ctx body input.shares ledgerKey.publicKeyHex = .ok report := by
  rw [verifyAuditParts_built h]
  obtain ⟨rewardManifest, settled, hreward, hsettled, hbody⟩ := buildAuditBundleBody_payouts h
  obtain ⟨base, recipients, hsettledBy⟩ := settlePayouts_eq_ok hsettled
  obtain ⟨window, hwindow, hentitlements⟩ := buildPrismRewardManifestWithCut_entitlements hreward
  rw [hbody, PayoutPolicyManifest.LowerCase, hsettledBy.onchain_eq]
  intro e he
  have hspelled : IsProgramHex e.p2mrProgramHex := by
    refine applyPayoutPolicy_spelled ?_ hprograms.priors hprograms.fee hsettledBy.policy he
    rw [hentitlements]
    intro e he
    exact computePrismWindowInCut_spelled hprograms.shares hwindow he
  exact hspelled.payoutProgramKey_eq

end

/-- Payouts and the fees due for them, before any fee is written into an account. -/
structure PayoutsDue where
  manifest : PayoutPolicyManifest
  fees : List (String × FanoutFeeRecipient)

def payoutsDue (ctx : AuditContext) (input : CtvSettlementInput) : Except PrismError PayoutsDue := do
  let rewardManifest ← buildPrismRewardManifestWithCut ctx.toCrypto input.shares input.foundBlock none
  let manifest ← applyPayoutPolicy rewardManifest input.priorBalances input.payoutPolicy
  let recipients ← settlementRecipientsFromEntitlements manifest.onchainEntitlements
  let decision ← selectSettlementModeWithPinnedDirect recipients input.directFloorSats
    input.settlementConfig (pinnedSettlementRecipientForPolicy manifest)
  match input.ctvFanoutFeePolicy with
  | none => pure { manifest, fees := [] }
  | some feePolicy => do
    let fees ← fanoutFeesByKey manifest decision feePolicy
    pure { manifest, fees }

/-- The fee due from an account, whatever the case its program is spelled in. -/
def PayoutsDue.fee (due : PayoutsDue) (account : PayoutPolicyAccount) : U64 :=
  (due.fees.lookup (accountKey { account.toPayoutIdentity with p2mrProgramHex := account.programKey })).elim 0
    (·.feeSats)

def PayoutsDue.lowerCaseFee (due : PayoutsDue) (program : String) : ℕ :=
  ((due.manifest.accounts.filter fun a => a.programKey = program).map fun a =>
    if a.programKey = a.p2mrProgramHex then (due.fee a).val else 0).sum

/-- What `settlement_fee_sats` says of a program. -/
def PayoutPolicyManifest.settlementFee (manifest : PayoutPolicyManifest) (program : String) : ℕ :=
  ((manifest.accounts.filter fun a => a.programKey = program).map fun a => a.settlementFeeSats.val).sum

variable {r : PrismRewardManifest} {priors : List CarryForwardBalance} {policy : PayoutPolicy}
  {m : PayoutPolicyManifest} {a : PayoutPolicyAccount} {chunks : List SettlementFanoutChunk}

theorem PolicyRun.settlementFee_zero (run : PolicyRun r priors policy m) (ha : a ∈ m.accounts) :
    a.settlementFeeSats = 0 := by
  rw [run.accounts_eq, mem_sortBy] at ha
  rcases mem_append.mp ha with ha | ha
  · exact run.settled_of_opened (fun _ => id) (fun a ha => (run.opened_ok.isOpen a ha).fee) ha
  · obtain ⟨fee, -, rfl⟩ := mem_map.mp ha
    rfl

theorem PolicyRun.entitlement_mem (run : PolicyRun r priors policy m) (ha : a ∈ m.accounts)
    (hpaid : 0 < a.onchainAmountSats.val) : a.entitlement ∈ m.onchainEntitlements := by
  rw [run.accounts_eq, mem_sortBy] at ha
  rw [run.entitlements_eq]
  exact mem_map_of_mem (mem_filter.mpr ⟨ha, decide_eq_true hpaid⟩)

theorem accountKey_program {a b : PayoutIdentity} (h : accountKey a = accountKey b)
    (hlength : a.p2mrProgramHex.toList.length = b.p2mrProgramHex.toList.length) :
    a.p2mrProgramHex = b.p2mrProgramHex := by
  have hlist := congrArg String.toList h
  simp only [accountKey, String.toList_append] at hlist
  exact String.toList_inj.mp (append_inj_right' hlist hlength)

theorem SettledBy.program_length {input : CtvSettlementInput} {rewardManifest : PrismRewardManifest}
    {base : PayoutPolicyManifest} {recipients : List SettlementRecipient} {settled : SettledPayouts}
    (h : SettledBy input rewardManifest base recipients settled) {e : WeightedEntitlement}
    (he : e ∈ base.onchainEntitlements) : e.p2mrProgramHex.toList.length = 64 := by
  obtain ⟨normalized, hnormalized, -⟩ := h.settles.settled
  obtain ⟨recipient, hrecipient, hlisted⟩ := exists_of_mapM_ok h.listed he
  simp only [bind_eq_ok, pure_eq_ok] at hlisted
  obtain ⟨amount, -, rfl⟩ := hlisted
  obtain ⟨own, -, hown⟩ := exists_of_mapM_ok hnormalized hrecipient
  obtain ⟨program, hprogram, rfl⟩ := normalizeRecipientP2mrProgram_eq_ok.mp hown
  have hlower := congrArg (fun text => text.toList.length) (Hex.toLower_of_decode hprogram)
  simp only [String.toLower, String.toList_map, length_map] at hlower
  exact hlower.trans (isProgramHex_encode program).1

theorem chargeAccount_recorded {due : PayoutsDue} {account charged : PayoutPolicyAccount}
    (hfees : ChunksCharged chunks due.fees) (hzero : account.settlementFeeSats = 0)
    (hlength : 0 < account.onchainAmountSats.val → account.p2mrProgramHex.toList.length = 64)
    (h : chargeAccount due.fees account = .ok charged) :
    charged = { account with settlementFeeSats :=
      if account.programKey = account.p2mrProgramHex then due.fee account else 0 } := by
  have hspelled : account.programKey = account.p2mrProgramHex →
      due.fee account = (due.fees.lookup (accountKey account.toPayoutIdentity)).elim 0 (·.feeSats) := by
    intro hlower
    rw [PayoutsDue.fee, hlower]
  cases hlookup : due.fees.lookup (accountKey account.toPayoutIdentity) with
  | none =>
    rw [hlookup] at hspelled
    simp only [chargeAccount, hlookup] at h
    cases h
    split_ifs with hlower
    · rw [hspelled hlower, Option.elim_none, ← hzero]
    · rw [← hzero]
  | some recipient =>
    rw [hlookup] at hspelled
    simp only [chargeAccount, hlookup, bind_eq_ok, require_eq_ok, pure_eq_ok] at h
    obtain ⟨-, hpaid, rfl⟩ := h
    obtain ⟨hkey, hgross, program, hprogram⟩ := hfees.entries _ (mem_of_lookup hlookup)
    have hdigits := isProgramHex_encode program
    have hsame : account.p2mrProgramHex = recipient.p2mrProgramHex := by
      apply accountKey_program hkey
      rw [hlength (hpaid ▸ hgross), hprogram, hdigits.1]
    have hlower : account.programKey = account.p2mrProgramHex := by
      rw [PayoutIdentity.programKey, hsame, hprogram]
      exact hdigits.payoutProgramKey_eq
    rw [if_pos hlower, hspelled hlower]
    rfl

theorem chargeAccounts_recorded {due : PayoutsDue} {accounts : List PayoutPolicyAccount}
    (hfees : ChunksCharged chunks due.fees) (hzero : ∀ a ∈ due.manifest.accounts, a.settlementFeeSats = 0)
    (hlength : ∀ a ∈ due.manifest.accounts, 0 < a.onchainAmountSats.val → a.p2mrProgramHex.toList.length = 64)
    (h : due.manifest.accounts.mapM (chargeAccount due.fees) = .ok accounts) (program : String) :
    ((accounts.filter fun a => a.programKey = program).map fun a => a.settlementFeeSats.val).sum =
      due.lowerCaseFee program := by
  let recorded (a : PayoutPolicyAccount) : PayoutPolicyAccount :=
    { a with settlementFeeSats := if a.programKey = a.p2mrProgramHex then due.fee a else 0 }
  have haccounts : accounts = due.manifest.accounts.map recorded := by
    have hall := (List.forall₂_and_left _ _).mpr ⟨fun a ha => ha, mapM_eq_ok.mp h⟩
    rw [← map_id accounts]
    refine map_eq_of_forall₂ recorded id hall ?_
    rintro a charged ⟨ha, hcharged⟩
    exact chargeAccount_recorded hfees (hzero a ha) (hlength a ha) hcharged
  rw [haccounts, filter_map, map_map]
  refine congrArg List.sum (map_congr_left fun a _ => ?_)
  show (if a.programKey = a.p2mrProgramHex then due.fee a else 0).val = _
  split_ifs
  · rfl
  · rfl

section
variable {ctx : AuditContext} {input other : CtvSettlementInput} {body otherBody : AuditBundleBody}
  {coinbaseKey ledgerKey : ManifestSigningKey ctx.toCrypto}

section
variable (h : buildAuditBundleBodyWithCtvSettlementOptions ctx input coinbaseKey ledgerKey = .ok body)
include h

theorem buildAuditBundleBody_recorded :
    ∃ due, payoutsDue ctx input = .ok due ∧
      (body.payoutPolicyManifest.LowerCase ↔ due.manifest.LowerCase) ∧
      ∀ program, body.payoutPolicyManifest.settlementFee program = due.lowerCaseFee program := by
  obtain ⟨rewardManifest, settled, hreward, hsettled, hbody⟩ := buildAuditBundleBody_payouts h
  obtain ⟨base, recipients, hsettledBy⟩ := settlePayouts_eq_ok hsettled
  obtain ⟨run⟩ := applyPayoutPolicy_eq_ok hsettledBy.policy
  have hlower : body.payoutPolicyManifest.LowerCase ↔ base.LowerCase := by
    rw [hbody, PayoutPolicyManifest.LowerCase, hsettledBy.onchain_eq]
    rfl
  simp only [settlePayouts, hsettledBy.policy, hsettledBy.listed, ok_bind, bind_eq_ok] at hsettled
  obtain ⟨decision, hdecision, hsettled⟩ := hsettled
  have hdue : payoutsDue ctx input = (match input.ctvFanoutFeePolicy with
      | none => pure { manifest := base, fees := [] }
      | some feePolicy => do
        let fees ← fanoutFeesByKey base decision feePolicy
        pure { manifest := base, fees }) := by
    rw [payoutsDue, hreward, ok_bind, hsettledBy.policy, ok_bind, hsettledBy.listed, ok_bind, hdecision, ok_bind]
  cases hfee : input.ctvFanoutFeePolicy with
  | none =>
    rw [hfee] at hdue
    simp only [hfee, pure_eq_ok] at hsettled
    subst hsettled
    refine ⟨_, hdue, hlower, ?_⟩
    intro program
    rw [hbody]
    refine congrArg List.sum (map_congr_left fun a ha => ?_)
    rw [run.settlementFee_zero (mem_of_mem_filter ha)]
    split_ifs
    · rfl
    · rfl
  | some feePolicy =>
    simp only [hfee, bind_eq_ok, pure_eq_ok] at hsettled
    obtain ⟨fees, hfees, charged, hcharged, rfl⟩ := hsettled
    rw [hfee] at hdue
    simp only [hfees, ok_bind] at hdue
    refine ⟨_, hdue, hlower, ?_⟩
    intro program
    rw [hbody]
    simp only [applyCtvFanoutFeeAccounting, hfees, ok_bind, bind_eq_ok, pure_eq_ok] at hcharged
    obtain ⟨accounts, haccounts, rfl⟩ := hcharged
    exact chargeAccounts_recorded (fanoutFeesByKey_charged hfees) (fun a ha => run.settlementFee_zero ha)
      (fun a ha hpaid => hsettledBy.program_length (run.entitlement_mem ha hpaid)) haccounts program

end

end

def flatContext : AuditContext :=
  { sampleContext with sha256 := fun _ => List.Vector.replicate 32 0 }

def flatKey (first : UInt8) : ManifestSigningKey flatContext.toCrypto where
  publicKey := ⟨first :: List.replicate 31 0, rfl⟩
  sign _ := ⟨List.replicate 64 0, rfl⟩
  valid := rfl
  verifies _ := rfl

def aliceSettlement (programHex : String) : CtvSettlementInput where
  shares := [{ sampleShare 1 alice 5 with p2mrProgramHex := programHex }]
  foundBlock := sampleBlock
  windowCut := none
  priorBalances := []
  payoutPolicy := samplePayoutPolicy
  directFloorSats := 1000
  settlementConfig := ⟨2, 2, 2, 0⟩
  ctvFanoutFeePolicy := none
  coinbaseScriptSigSuffixHex := none
  witnessMerkleLeavesHex := []

theorem verifyAuditParts_accepts_alice :
    ∃ body report, buildAuditBundleBodyWithCtvSettlementOptionsParallel flatContext
        (aliceSettlement alice.p2mrProgramHex) (flatKey 1) (flatKey 2) .serial = .ok body ∧
      verifyAuditParts flatContext body (aliceSettlement alice.p2mrProgramHex).shares
        (flatKey 2).publicKeyHex = .ok report := by
  have hok : (buildAuditBundleBodyWithCtvSettlementOptionsParallel flatContext
      (aliceSettlement alice.p2mrProgramHex) (flatKey 1) (flatKey 2) .serial).isOk = true := by
    decide +kernel
  obtain ⟨body, hbody⟩ := exists_of_isOk hok
  have hspells : (aliceSettlement alice.p2mrProgramHex).Spells IsProgramHex := by
    refine ⟨?_, by simp [aliceSettlement], by simp [aliceSettlement, samplePayoutPolicy]⟩
    intro share hshare
    cases mem_singleton.mp hshare
    have hprogram : alice.p2mrProgramHex = Hex.encode (List.replicate 32 0xa1) := by decide +kernel
    exact hprogram ▸ isProgramHex_encode ⟨List.replicate 32 0xa1, rfl⟩
  obtain ⟨report, hreport⟩ := verifyAuditParts_accepts_built hspells hbody
  exact ⟨body, report, hbody, hreport⟩

/-- The same input with programs in another letter case. -/
structure CtvSettlementInput.Respelled (input other : CtvSettlementInput) : Prop where
  shares : List.Forall₂ (fun s s' : AcceptedShare =>
    payoutProgramKey s'.p2mrProgramHex = payoutProgramKey s.p2mrProgramHex ∧
      s' = { s with p2mrProgramHex := s'.p2mrProgramHex }) input.shares other.shares
  priors : List.Forall₂ (fun b b' : CarryForwardBalance => b'.programKey = b.programKey ∧
    b' = { b with p2mrProgramHex := b'.p2mrProgramHex }) input.priorBalances other.priorBalances
  fee : Option.Rel (fun f f' : PoolFeePolicy => f'.programKey = f.programKey ∧
    f' = { f with p2mrProgramHex := f'.p2mrProgramHex }) input.payoutPolicy.poolFeePolicy
      other.payoutPolicy.poolFeePolicy
  rest : other = { input with
    shares := other.shares
    priorBalances := other.priorBalances
    payoutPolicy := { input.payoutPolicy with poolFeePolicy := other.payoutPolicy.poolFeePolicy } }

def aliceUpperHex : String := "A1A1A1A1A1A1A1A1A1A1A1A1A1A1A1A1A1A1A1A1A1A1A1A1A1A1A1A1A1A1A1A1"

theorem payoutProgramKey_alice (programHex : String) (h : Hex.decode programHex = .ok (List.replicate 32 0xa1)) :
    payoutProgramKey programHex = alice.p2mrProgramHex := by
  have hencode : alice.p2mrProgramHex = Hex.encode (List.replicate 32 0xa1) := by decide +kernel
  rw [payoutProgramKey, hencode]
  exact Hex.toLower_of_decode h

theorem aliceSettlement_respelled :
    (aliceSettlement alice.p2mrProgramHex).Respelled (aliceSettlement aliceUpperHex) := by
  refine ⟨.cons ⟨?_, rfl⟩ .nil, .nil, .none, rfl⟩
  exact (payoutProgramKey_alice aliceUpperHex (by decide +kernel)).trans
    (payoutProgramKey_alice alice.p2mrProgramHex (by decide +kernel)).symm

def paidPrograms (input : CtvSettlementInput) : Except PrismError (List String) := do
  let body ← buildAuditBundleBodyWithCtvSettlementOptions flatContext input (flatKey 1) (flatKey 2)
  pure (body.payoutPolicyManifest.onchainEntitlements.map (·.p2mrProgramHex))

theorem paidPrograms_eq_ok {input : CtvSettlementInput} {program : String} (h : paidPrograms input = .ok [program]) :
    ∃ body, buildAuditBundleBodyWithCtvSettlementOptions flatContext input (flatKey 1) (flatKey 2) = .ok body ∧
      ((∃ report, verifyAuditParts flatContext body input.shares (flatKey 2).publicKeyHex = .ok report) ↔
        payoutProgramKey program = program) := by
  simp only [paidPrograms, bind_eq_ok, pure_eq_ok] at h
  obtain ⟨body, hbody, hpaid⟩ := h
  refine ⟨body, hbody, (verifyAuditParts_built hbody).trans ?_⟩
  have hprograms : body.payoutPolicyManifest.LowerCase ↔
      ∀ program ∈ body.payoutPolicyManifest.onchainEntitlements.map (·.p2mrProgramHex),
        payoutProgramKey program = program := by
    rw [forall_mem_map]
    rfl
  rw [hprograms, hpaid, forall_mem_singleton]

theorem aliceSettlement_bodies :
    ∃ body otherBody,
      buildAuditBundleBodyWithCtvSettlementOptions flatContext (aliceSettlement alice.p2mrProgramHex)
        (flatKey 1) (flatKey 2) = .ok body ∧
      buildAuditBundleBodyWithCtvSettlementOptions flatContext (aliceSettlement aliceUpperHex)
        (flatKey 1) (flatKey 2) = .ok otherBody ∧
      (∃ report, verifyAuditParts flatContext body (aliceSettlement alice.p2mrProgramHex).shares
        (flatKey 2).publicKeyHex = .ok report) ∧
      ¬∃ report, verifyAuditParts flatContext otherBody (aliceSettlement aliceUpperHex).shares
        (flatKey 2).publicKeyHex = .ok report := by
  obtain ⟨body, hbody, haccepts⟩ := paidPrograms_eq_ok
    (show paidPrograms (aliceSettlement alice.p2mrProgramHex) = .ok [alice.p2mrProgramHex] by decide +kernel)
  obtain ⟨otherBody, hotherBody, hotherAccepts⟩ := paidPrograms_eq_ok
    (show paidPrograms (aliceSettlement aliceUpperHex) = .ok [aliceUpperHex] by decide +kernel)
  have hlower := payoutProgramKey_alice alice.p2mrProgramHex (by decide +kernel)
  have hupper := payoutProgramKey_alice aliceUpperHex (by decide +kernel)
  have hne : alice.p2mrProgramHex ≠ aliceUpperHex := by decide +kernel
  refine ⟨body, otherBody, hbody, hotherBody, haccepts.mpr hlower, ?_⟩
  rw [hotherAccepts, hupper]
  exact hne

end QbitPrism
