import Mathlib
import QbitPrism.Audit.Accepted
import QbitPrism.Lib.Payments

/-!
# Who an accepted bundle pays

The payments of an accepted bundle are the coinbase outputs no fanout spends and the
outputs of the committed fanout transactions. The verifier compares a fanout output's
covered amount with its account, and the sum of a fanout's outputs and fees with its covenant
output, but no single output's amount with what it covers. Every account is paid once exactly
when each fanout output is what it covers less the fee recorded for its account and the fees
in total are what the outputs leave.
-/
namespace QbitPrism
open MachineInt Checked SortBy ByteReader Payments LargestRemainder List

/-- The script that pays a program, in hex; empty if the program is not hex. -/
def p2mrScriptHex (programHex : String) : String :=
  match Hex.decode programHex with
  | .ok program => Hex.encode (0x52 :: 32 :: program)
  | .error _ => ""

namespace AuditBundle

def covenantVouts (bundle : AuditBundle) : List ℕ :=
  bundle.manifests.map fun manifest => manifest.parentCoinbaseVout.val

def directPayments (bundle : AuditBundle) : List (Payment String) :=
  (bundle.signedCoinbaseManifest.manifest.outputs.filter fun o => o.vout ∉ bundle.covenantVouts).map
    fun o => (o.scriptPubkeyHex, o.amountSats.val)

end AuditBundle

def CtvFanoutManifest.fanoutTxOuts (manifest : CtvFanoutManifest) : List ParsedTxOut :=
  match parseTransactionHex manifest.fanoutTxHex "manifest fanout_tx_hex" with
  | .ok fanout => fanout.outputs
  | .error _ => []

def ParsedTxOut.payment (output : ParsedTxOut) : Payment String :=
  (Hex.encode output.scriptPubkey, output.amountSats.val)

def PayoutPolicyAccount.account (a : PayoutPolicyAccount) : Account String :=
  { key := p2mrScriptHex a.p2mrProgramHex
    due := a.onchainAmountSats.val
    fee := a.settlementFeeSats.val }

namespace AuditBundle

def fanoutPayments (bundle : AuditBundle) : List (Payment String) :=
  (bundle.manifests.flatMap (·.fanoutTxOuts)).map (·.payment)

/-- One direct coinbase output of the account's on-chain amount to its program, or one
output of one committed fanout of that amount less the account's settlement fee. -/
def PaysOnce (bundle : AuditBundle) (a : PayoutPolicyAccount) : Prop :=
  PaidOnce bundle.directPayments bundle.fanoutPayments a.account

instance (bundle : AuditBundle) (a : PayoutPolicyAccount) : Decidable (bundle.PaysOnce a) := by
  unfold PaysOnce
  infer_instance

/-- The committed fanout outputs leave exactly the recorded fees. -/
structure FeesRecorded (bundle : AuditBundle) : Prop where
  each : ∀ o ∈ bundle.fanoutOutputs, ∀ a ∈ bundle.payoutPolicyManifest.accounts,
    a.toPayoutIdentity = o.toPayoutIdentity →
      o.amountSats.val + a.settlementFeeSats.val = o.coveredSats.val
  total_eq : (bundle.fanoutOutputs.map fun o => o.amountSats.val + o.feeSats.val).sum =
    (bundle.fanoutOutputs.map fun o => o.coveredSats.val).sum

end AuditBundle

theorem p2mrScriptHex_of_decode {programHex : String} {program : Bytes 32}
    (h : Hex.decode programHex = .ok program.toList) :
    p2mrScriptHex programHex = Hex.encode (p2mrScriptPubkey program).toList := by
  rw [p2mrScriptHex, h]
  rfl

theorem payoutProgramKey_eq_of_script {a b : String} {p q : Bytes 32}
    (ha : Hex.decode a = .ok p.toList) (hb : Hex.decode b = .ok q.toList)
    (h : p2mrScriptHex a = p2mrScriptHex b) : payoutProgramKey a = payoutProgramKey b := by
  rw [p2mrScriptHex_of_decode ha, p2mrScriptHex_of_decode hb] at h
  have hscript : p2mrScriptPubkey p = p2mrScriptPubkey q :=
    List.Vector.toList_injective (Hex.encode_injective h)
  have hprogram := p2mrScriptPubkey_injective hscript
  rw [payoutProgramKey, payoutProgramKey, Hex.toLower_of_decode ha, Hex.toLower_of_decode hb, hprogram]

def WeightedEntitlement.payment (e : WeightedEntitlement) : Payment String :=
  (p2mrScriptHex e.p2mrProgramHex, e.weight.val)

def AllocatedOutput.payment (o : AllocatedOutput) : Payment String := o.txOut.payment

def CtvFanoutOutput.receiver (o : CtvFanoutOutput) : Receiver String :=
  { key := p2mrScriptHex o.p2mrProgramHex, covered := o.coveredSats.val, paid := o.amountSats.val }

theorem PaysEntitlement.script {e : WeightedEntitlement} {o : AllocatedOutput} (h : PaysEntitlement e o) :
    Hex.encode o.scriptPubkey = p2mrScriptHex e.p2mrProgramHex :=
  (p2mrScriptHex_of_decode h.program).symm

variable {bundle : AuditBundle} {decision : SettlementModeDecision} {outputs : List AllocatedOutput}
  {commitmentScript : List UInt8}

theorem directPayments_eq
    (h : bundle.signedCoinbaseManifest.manifest.outputs = outputs.zipIdx.map fun x => payoutOutput x.1 x.2) :
    bundle.directPayments = (((outputs.map (·.payment)).zipIdx).filter fun p =>
      p.2 ∉ bundle.covenantVouts).map Prod.fst := by
  rw [AuditBundle.directPayments, h, filter_map, map_map, zipIdx_map, filter_map, map_map]
  rfl

variable {request : CoinbaseBuildRequest} {a : PayoutPolicyAccount} {manifest : CtvFanoutManifest}

theorem entitlements_total
    (he : request.entitlements = decision.directRecipients.map (·.entitlement) ++ bundle.manifests.map (·.covenantEntitlement)) :
    (request.entitlements.map fun e => e.weight.val).sum =
      total (decision.directRecipients.map (·.entitlement.payment)) +
        total (bundle.manifests.map (·.covenantEntitlement.payment)) := by
  rw [he, map_append, sum_append, total, total, map_map, map_map, map_map, map_map]
  rfl

theorem outputs_payment_perm (hsplit : CoinbaseSplit request.coinbaseValueSats.val request.entitlements outputs)
    (hsum : (request.entitlements.map fun e => e.weight.val).sum = request.coinbaseValueSats.val) :
    (outputs.map (·.payment)).Perm (request.entitlements.map (·.payment)) := by
  obtain ⟨ordered, hperm, hpays⟩ := hsplit.entries
  refine List.Perm.trans ?_ (hperm.map _)
  have hequal : List.Forall₂ (fun e o => AllocatedOutput.payment o = WeightedEntitlement.payment e)
      ordered outputs := by
    rw [List.forall₂_iff_zip] at hpays ⊢
    refine ⟨hpays.1, ?_⟩
    intro e o hmem
    have ho := hpays.2 hmem
    refine Prod.ext ho.script ?_
    exact (hsplit.exact hsum (of_mem_zip hmem).2).trans (congrArg Unsigned.val ho.weight)
  refine List.Perm.of_eq ?_
  refine List.forall₂_eq_eq_eq ▸ List.forall₂_map_left_iff.mpr (List.forall₂_map_right_iff.mpr ?_)
  exact hequal.flip

namespace AcceptedBundle
variable (h : AcceptedBundle bundle decision outputs commitmentScript)
include h

theorem covenant_output (hm : manifest ∈ bundle.manifests) :
    (outputs.map (·.payment))[manifest.parentCoinbaseVout.val]? =
      some manifest.covenantEntitlement.payment := by
  obtain ⟨parent, program, hparent, hprogram, houtput⟩ := (h.fanouts.accepted manifest hm).covenant
  obtain ⟨request, -, -, hbuilt⟩ := h.built
  rw [h.fanouts.parent manifest hm] at hparent
  rw [hbuilt.parsed _ _ hparent] at houtput
  -- The witness commitment after the outputs is no covenant: it pays no program.
  have hlt : manifest.parentCoinbaseVout.val < (outputs.map AllocatedOutput.txOut).length := by
    by_contra hge
    rw [List.getElem?_append_right (by omega)] at houtput
    have hmem := mem_of_getElem? houtput
    rw [mem_singleton] at hmem
    exact hbuilt.commitment_ne program (congrArg ParsedTxOut.scriptPubkey hmem).symm
  rw [List.getElem?_append_left hlt, List.getElem?_map, Option.map_eq_some_iff] at houtput
  obtain ⟨o, ho, hotx⟩ := houtput
  have hscript : p2mrScriptHex manifest.precommitment.p2mrProgramHex =
      Hex.encode (p2mrScriptPubkey program).toList :=
    p2mrScriptHex_of_decode (by rw [hprogram, Hex.decode_encode])
  rw [List.getElem?_map, ho, Option.map_some, AllocatedOutput.payment, hotx,
    WeightedEntitlement.payment, CtvFanoutManifest.covenantEntitlement, hscript]
  rfl

theorem outputs_perm : (bundle.directPayments ++
    bundle.manifests.map (·.covenantEntitlement.payment)).Perm (outputs.map (·.payment)) := by
  obtain ⟨request, -, -, hbuilt⟩ := h.built
  rw [directPayments_eq hbuilt.outputs_eq]
  apply perm_takeOut
  · have hvouts := h.fanouts.distinct.map (f := Unsigned.val) fun _ _ => Unsigned.ext
    rwa [map_map] at hvouts
  · rw [AuditBundle.covenantVouts, map_map, map_map]
    exact map_congr_left fun manifest hm => h.covenant_output hm

theorem decode_direct {r : SettlementRecipient} (hr : r ∈ decision.directRecipients) :
    ∃ program : Bytes 32, Hex.decode r.p2mrProgramHex = .ok program.toList := by
  obtain ⟨request, -, hentitlements, hbuilt⟩ := h.built
  obtain ⟨ordered, hperm, hpays⟩ := hbuilt.split.entries
  have hmem : r.entitlement ∈ ordered := by
    rw [hperm.mem_iff, hentitlements]
    exact mem_append_left _ (mem_map_of_mem hr)
  obtain ⟨o, -, ho⟩ := exists_of_forall₂ hpays hmem
  exact ⟨o.p2mrProgram, ho.program⟩

theorem decode_fanout {o : CtvFanoutOutput} (ho : o ∈ bundle.fanoutOutputs) :
    ∃ program : Bytes 32, Hex.decode o.p2mrProgramHex = .ok program.toList := by
  obtain ⟨manifest, hm, ho⟩ := mem_flatMap.mp ho
  obtain ⟨fanout, -, houtputs⟩ := (h.fanouts.accepted manifest hm).fanout
  obtain ⟨payouts, anchors, -, hpays, -⟩ := houtputs.outputs
  obtain ⟨output, -, houtput⟩ := exists_of_forall₂ hpays ho
  obtain ⟨program, hprogram, -⟩ := houtput.script
  exact ⟨program, hprogram⟩

theorem covers : (decision.directRecipients.map (·.entitlement) ++
    bundle.fanoutOutputs.map (·.coveredRecipient.entitlement)).Perm
      (bundle.payoutPolicyManifest.onchainAccounts.map (·.entitlement)) :=
  h.covered.trans h.accounts.entitlements

theorem decode_account (ha : a ∈ bundle.payoutPolicyManifest.onchainAccounts) :
    ∃ program : Bytes 32, Hex.decode a.p2mrProgramHex = .ok program.toList := by
  have hmem := h.covers.mem_iff.mpr (mem_map_of_mem ha)
  rcases mem_append.mp hmem with hd | hf
  · obtain ⟨r, hr, hra⟩ := mem_map.mp hd
    rw [show a.p2mrProgramHex = r.p2mrProgramHex from
      (congrArg (fun e : WeightedEntitlement => e.p2mrProgramHex) hra).symm]
    exact h.decode_direct hr
  · obtain ⟨o, ho, hoa⟩ := mem_map.mp hf
    rw [show a.p2mrProgramHex = o.p2mrProgramHex from
      (congrArg (fun e : WeightedEntitlement => e.p2mrProgramHex) hoa).symm]
    exact h.decode_fanout ho

theorem eq_of_script {b : PayoutPolicyAccount} (ha : a ∈ bundle.payoutPolicyManifest.onchainAccounts)
    (hb : b ∈ bundle.payoutPolicyManifest.onchainAccounts)
    (hscript : p2mrScriptHex a.p2mrProgramHex = p2mrScriptHex b.p2mrProgramHex) : a = b := by
  obtain ⟨p, hp⟩ := h.decode_account ha
  obtain ⟨q, hq⟩ := h.decode_account hb
  exact inj_on_of_nodup_map h.accounts.programs (mem_filter.mp ha).1 (mem_filter.mp hb).1
    (payoutProgramKey_eq_of_script hp hq hscript)

theorem settlement : Settlement (bundle.payoutPolicyManifest.onchainAccounts.map (·.account))
    (decision.directRecipients.map (·.entitlement.payment)) (bundle.fanoutOutputs.map (·.receiver))
    (bundle.manifests.map (·.covenantEntitlement.payment)) bundle.directPayments := by
  obtain ⟨request, hvalue, hentitlements, hbuilt⟩ := h.built
  have hperm := h.outputs_perm
  have hdue : total ((bundle.payoutPolicyManifest.onchainAccounts.map (·.account)).map Account.owed) =
      request.coinbaseValueSats.val := by
    rw [hvalue, ← h.accounts.total_eq, total, map_map, map_map]
    rfl
  refine ⟨?_, ?_, ?_, ?_, ?_⟩
  · have hnd : bundle.payoutPolicyManifest.onchainAccounts.Nodup :=
      (List.Nodup.of_map _ h.accounts.programs).filter _
    rw [map_map]
    exact hnd.map_on fun a ha b hb => h.eq_of_script ha hb
  · have hcovers := h.covers.map (·.payment)
    rw [map_append, map_map, map_map, map_map] at hcovers
    rw [map_map, map_map]
    exact hcovers
  · obtain ⟨ordered, hordered, hpays⟩ := hbuilt.split.entries
    have hlength := hperm.length_eq
    have hcount := hpays.length_eq.symm.trans hordered.length_eq
    rw [hentitlements] at hcount
    simp only [length_append, length_map] at hlength hcount
    rw [length_map]
    omega
  · rw [← total_append, total_perm hperm, hdue, ← hbuilt.split.total_eq, total, map_map]
    rfl
  · intro hsum
    have hweights := (entitlements_total hentitlements).trans (hsum.trans hdue)
    have hpays := outputs_payment_perm hbuilt.split hweights
    have hall := hperm.trans hpays
    rw [hentitlements, map_append, map_map, map_map] at hall
    exact (perm_append_right_iff _).mp hall

end AcceptedBundle

theorem AcceptedManifest.payments (h : AcceptedManifest manifest) (program : Bytes 32) :
    paymentsTo (Hex.encode (p2mrScriptPubkey program).toList) (manifest.fanoutTxOuts.map (·.payment)) =
      paymentsTo (Hex.encode (p2mrScriptPubkey program).toList)
        (manifest.precommitment.outputs.map (·.receiver.payment)) := by
  obtain ⟨fanout, hfanout, houtputs⟩ := h.fanout
  obtain ⟨payouts, anchors, hsplit, hpays, hanchors⟩ := houtputs.outputs
  have hpayouts : payouts.map (·.payment) =
      manifest.precommitment.outputs.map (·.receiver.payment) := by
    refine List.forall₂_eq_eq_eq ▸ List.forall₂_map_left_iff.mpr (List.forall₂_map_right_iff.mpr ?_)
    refine hpays.flip.imp ?_
    rintro output payout ⟨hamount, p, hp, hscript⟩
    refine Prod.ext ?_ (congrArg Unsigned.val hamount)
    exact (congrArg Hex.encode hscript).trans (p2mrScriptHex_of_decode hp).symm
  have hanchor : paymentsTo (Hex.encode (p2mrScriptPubkey program).toList)
      (anchors.map (·.payment)) = [] := by
    rw [paymentsTo_eq_nil, map_map]
    intro hmem
    obtain ⟨anchor, ha, hscript⟩ := mem_map.mp hmem
    have hbytes := (hanchors anchor ha).symm.trans (Hex.encode_injective hscript)
    exact absurd (List.cons.inj hbytes).1 (by decide)
  rw [CtvFanoutManifest.fanoutTxOuts, hfanout]
  dsimp only
  rw [hsplit, map_append, paymentsTo_append, hanchor, append_nil, hpayouts]

theorem AcceptedFanouts.payments {manifests : List CtvFanoutManifest} {coinbaseTxHex : String}
    (h : AcceptedFanouts manifests coinbaseTxHex) (program : Bytes 32) :
    paymentsTo (Hex.encode (p2mrScriptPubkey program).toList)
        ((manifests.flatMap (·.fanoutTxOuts)).map (·.payment)) =
      paymentsTo (Hex.encode (p2mrScriptPubkey program).toList)
        (((manifests.flatMap (·.precommitment.outputs)).map (·.receiver)).map Receiver.payment) := by
  rw [map_map, map_flatMap, map_flatMap, paymentsTo_flatMap, paymentsTo_flatMap]
  exact flatMap_congr fun manifest hm => (h.accepted manifest hm).payments program

namespace AcceptedBundle
variable (h : AcceptedBundle bundle decision outputs commitmentScript)
include h

theorem paysOnce_iff (ha : a ∈ bundle.payoutPolicyManifest.onchainAccounts) :
    bundle.PaysOnce a ↔ PaidOnce bundle.directPayments
      ((bundle.fanoutOutputs.map (·.receiver)).map Receiver.payment) a.account := by
  obtain ⟨program, hprogram⟩ := h.decode_account ha
  have hkey : a.account.key = Hex.encode (p2mrScriptPubkey program).toList :=
    p2mrScriptHex_of_decode hprogram
  have hpayments := h.fanouts.payments program
  rw [← hkey] at hpayments
  rw [AuditBundle.PaysOnce, PaidOnce, PaidOnce, AuditBundle.fanoutPayments, hpayments]
  rfl

theorem funds_total : total (bundle.manifests.map (·.covenantEntitlement.payment)) =
    (bundle.fanoutOutputs.map fun o => o.amountSats.val + o.feeSats.val).sum := by
  rw [total, map_map, AuditBundle.fanoutOutputs, map_flatMap, flatMap_def, sum_flatten, map_map]
  apply congrArg List.sum
  apply map_congr_left
  intro manifest hm
  obtain ⟨fanout, -, houtputs⟩ := (h.fanouts.accepted manifest hm).fanout
  rw [Function.comp_apply, Function.comp_apply, sum_map_add]
  exact houtputs.funded

theorem fees_iff : (∀ r ∈ bundle.fanoutOutputs.map (·.receiver),
      ∀ a ∈ bundle.payoutPolicyManifest.onchainAccounts.map (·.account),
        a.key = r.key → r.paid + a.fee = r.covered) ↔
    ∀ o ∈ bundle.fanoutOutputs, ∀ a ∈ bundle.payoutPolicyManifest.accounts,
      a.toPayoutIdentity = o.toPayoutIdentity →
        o.amountSats.val + a.settlementFeeSats.val = o.coveredSats.val := by
  simp only [forall_mem_map]
  refine forall₂_congr fun o ho => ?_
  have hmem := h.covers.mem_iff.mp (mem_append_right _ (mem_map_of_mem ho))
  obtain ⟨a₀, ha₀, hentitlement⟩ := mem_map.mp hmem
  have hidentity : a₀.toPayoutIdentity = o.toPayoutIdentity :=
    congrArg WeightedEntitlement.toPayoutIdentity hentitlement
  constructor
  · intro hfee a ha hid
    have haa : a = a₀ := inj_on_of_nodup_map h.accounts.programs ha (mem_filter.mp ha₀).1
      (congrArg PayoutIdentity.programKey (hid.trans hidentity.symm))
    rw [haa]
    exact hfee a₀ ha₀ (congrArg (fun i : PayoutIdentity => p2mrScriptHex i.p2mrProgramHex) hidentity)
  · intro hfee a ha hkey
    have hscript : p2mrScriptHex a.p2mrProgramHex = p2mrScriptHex a₀.p2mrProgramHex :=
      hkey.trans (congrArg (fun i : PayoutIdentity => p2mrScriptHex i.p2mrProgramHex) hidentity).symm
    rw [h.eq_of_script ha ha₀ hscript]
    exact hfee a₀ (mem_filter.mp ha₀).1 hidentity

end AcceptedBundle

/-- In every accepted bundle with a settlement decision, all accounts paid on chain are paid
exactly once if and only if the committed fanout outputs leave exactly the recorded fees. -/
theorem verifyAuditBundle_paysOnce_iff {ctx : AuditContext} {bundle : AuditBundle} {key : String}
    {report : AuditVerificationReport} (h : verifyAuditBundle ctx bundle key = .ok report)
    (hdecision : bundle.settlementModeDecision.isSome) :
    (∀ a ∈ bundle.payoutPolicyManifest.accounts, 0 < a.onchainAmountSats.val → bundle.PaysOnce a) ↔
      bundle.FeesRecorded := by
  obtain ⟨decision, hdecision⟩ := Option.isSome_iff_exists.mp hdecision
  obtain ⟨outputs, commitmentScript, haccepted⟩ := verifyAuditBundle_eq_ok h hdecision
  have hpaid := haccepted.settlement.paidOnce_iff
  rw [haccepted.fees_iff, haccepted.funds_total] at hpaid
  have hcovered : total ((bundle.fanoutOutputs.map (·.receiver)).map Receiver.settles) =
      (bundle.fanoutOutputs.map fun o => o.coveredSats.val).sum := by
    rw [total, map_map, map_map]
    rfl
  rw [hcovered] at hpaid
  constructor
  · intro hall
    have honchain := hpaid.mp (forall_mem_map.mpr fun a ha =>
      (haccepted.paysOnce_iff ha).mp (hall a (mem_filter.mp ha).1
        (of_decide_eq_true (mem_filter.mp ha).2)))
    exact ⟨honchain.1, honchain.2⟩
  · intro hfees a ha hpos
    have honchain : a ∈ bundle.payoutPolicyManifest.onchainAccounts :=
      mem_filter.mpr ⟨ha, decide_eq_true hpos⟩
    rw [haccepted.paysOnce_iff honchain]
    exact hpaid.mpr ⟨hfees.each, hfees.total_eq⟩ _ (mem_map_of_mem honchain)

/-- A stand-in for SHA-256: the bytes as a number, modulo a prime. -/
def sampleDigest (bytes : List UInt8) : Bytes 32 :=
  ⟨leBytes 32 (ofLeBytes (bytes ++ [1]) % (2 ^ 255 - 19)), length_leBytes _ _⟩

/-- Every signature verifies and the JSON of every artifact is empty. -/
def sampleContext : AuditContext where
  sha256 := sampleDigest
  ed25519ValidKey _ := true
  ed25519Verifies _ _ _ := true
  precommitmentBytes _ := []
  rewardManifestBytes _ := []
  payoutPolicyManifestBytes _ := []
  payoutManifestBytes _ := []
  attestationBytes _ := []
  auditBundleBytes _ := []

def emptyDigestHex : String := "0100000000000000000000000000000000000000000000000000000000000000"

def alice : PayoutIdentity := ⟨"alice", "alice", "a1a1a1a1a1a1a1a1a1a1a1a1a1a1a1a1a1a1a1a1a1a1a1a1a1a1a1a1a1a1a1a1"⟩

def bob : PayoutIdentity := ⟨"bob", "bob", "b2b2b2b2b2b2b2b2b2b2b2b2b2b2b2b2b2b2b2b2b2b2b2b2b2b2b2b2b2b2b2b2"⟩

def carol : PayoutIdentity := ⟨"carol", "carol", "c3c3c3c3c3c3c3c3c3c3c3c3c3c3c3c3c3c3c3c3c3c3c3c3c3c3c3c3c3c3c3c3"⟩

def sampleShare (seq : U64) (miner : PayoutIdentity) (difficulty : U128) : AcceptedShare where
  shareSeq := seq
  shareId := miner.recipientId
  minerId := miner.recipientId
  orderKey := miner.orderKey
  p2mrProgramHex := miner.p2mrProgramHex
  shareDifficulty := difficulty
  networkDifficulty := 2
  templateHeight := 101
  jobId := "job"
  jobIssuedAtMs := 1
  acceptedAtMs := 1
  ntime := 0
  creditPolicy := none

def sampleBlock : FoundBlock :=
  { blockHeight := 101, coinbaseValueSats := 10000, networkDifficulty := 2, anchorJobIssuedAtMs := 1 }

def sampleReward : PrismRewardManifest where
  schema := "qbit.prism.reward-manifest.v1"
  blockHeight := 101
  coinbaseValueSats := 10000
  networkDifficulty := 2
  windowMultiplier := 8
  requestedWindowWeight := 16
  countedWindowWeight := 10
  anchorJobIssuedAtMs := 1
  anchorShareSeq := 3
  newestShareSeq := 3
  oldestShareSeq := 1
  cut := none
  includedShareCount := 3
  shareSliceDigestHex := "6f371e56700381ddfc130a1c165274b915bf5207b2ff2ef693046635ca8a0d48"
  shares := [countShare (sampleShare 3 carol 2) 2, countShare (sampleShare 2 bob 3) 3,
    countShare (sampleShare 1 alice 5) 5]
  entitlements := [{ alice with weight := 5 }, { bob with weight := 3 }, { carol with weight := 2 }]

def samplePayoutPolicy : PayoutPolicy where
  p2mrSpendInputBytes := 3680
  targetFeerateSatsPerByte := 1
  safetyMultiplier := 4
  minOutputSats? := some 1000
  poolFeePolicy := none
  coinbaseOutputPolicy := .canonical

def sampleAccount (identity : PayoutIdentity) (sats : U64) : PayoutPolicyAccount :=
  { identity with
    accountType := .miner
    grossAmountSats := sats
    priorBalanceSats := 0
    candidateBalanceSats := U64.toI128 sats
    onchainAmountSats := sats
    settlementFeeSats := 0
    carryForwardBalanceSats := 0
    action := .onchain }

def samplePayouts : PayoutPolicyManifest where
  schema := "qbit.prism.payout-policy.v1"
  blockHeight := 101
  coinbaseValueSats := 10000
  minOutputSats := 1000
  floorFormula := "configured fixed floor: 1000 sats"
  coinbaseOutputPolicy := .canonical
  poolFee := none
  accounts := [sampleAccount alice 5000, sampleAccount bob 3000, sampleAccount carol 2000]
  onchainEntitlements := [{ alice with weight := 5000 }, { bob with weight := 3000 },
    { carol with weight := 2000 }]

/-- Alice is paid 5000 directly; Bob and Carol are owed 3000 and 2000 through one fanout. -/
def sampleDecision : SettlementModeDecision where
  mode := .hybridCoinbaseCtvFanout
  directRecipients := [{ alice with amountSats := 5000 }]
  fanoutChunks := [{
    chunkIndex := 0
    recipientCount := 2
    amountSats := 5000
    recipients := [{ bob with amountSats := 3000 }, { carol with amountSats := 2000 }] }]
  directRecipientCount := 1
  fanoutRecipientCount := 2
  fanoutChunkCount := 1
  directAmountSats := 5000
  fanoutAmountSats := 5000
  totalAmountSats := 10000
  coinbaseSettlementOutputCount := 2
  reservedCoinbaseOutputCount := 0
  reason := "hybrid"

/-- The transactions of the block and the hashes in its covenant. -/
structure SampleHex where
  template : String
  ctvHash : String
  program : String
  coinbaseTx : String
  coinbaseTxid : String
  coinbaseWtxid : String
  fanoutTx : String
  fanoutTxid : String

def sampleFanoutOutput (vout : U32) (identity : PayoutIdentity) (gross amount : U64) : CtvFanoutOutput :=
  { identity with
    vout
    scriptPubkeyHex := "5220" ++ identity.p2mrProgramHex
    grossAmountSats := gross
    feeSats := 0
    amountSats := amount }

/-- The fanout states what Bob and Carol are owed and pays them these amounts. -/
def samplePrecommitment (hex : SampleHex) (bobSats carolSats : U64) : CtvFanoutPrecommitment where
  schema := ctvFanoutPrecommitmentSchema
  blockHeight := 101
  chunkIndex := 0
  chunkCount := 1
  coinbaseValueSats := 10000
  settlementMode := .hybridCoinbaseCtvFanout
  covenantOutputValueSats := 5000
  covenantScriptPubkeyHex := "5220" ++ hex.program
  fanoutTxTemplateHex := hex.template
  fanoutInputIndex := 0
  fanoutSequence := 2147483648
  fanoutLockTime := 101
  fanoutOutputSumSats := 5000
  fanoutFeeSats := 0
  anchorVout := some 2
  ctvHashHex := hex.ctvHash
  ctvLeafScriptHex := "20" ++ hex.ctvHash ++ "bb"
  p2mrProgramHex := hex.program
  p2mrControlBlockHex := "c1"
  rewardManifestSha256Hex := emptyDigestHex
  payoutPolicyManifestSha256Hex := emptyDigestHex
  outputs := [sampleFanoutOutput 0 bob 3000 bobSats, sampleFanoutOutput 1 carol 2000 carolSats]

def sampleFanoutLeafHex : String := "45edc04534707269736d2e6374762d66616e6f75742e636f6d6d69746d656e74"

def sampleFanoutSet (hex : SampleHex) (bobSats carolSats : U64) : CtvFanoutManifestSet where
  schema := ctvFanoutManifestSetSchema
  blockHeight := 101
  coinbaseValueSats := 10000
  settlementMode := .hybridCoinbaseCtvFanout
  rewardManifestSha256Hex := emptyDigestHex
  payoutPolicyManifestSha256Hex := emptyDigestHex
  parentCoinbaseTxid := hex.coinbaseTxid
  fanoutCount := 1
  fanoutOutputSumSats := 5000
  fanoutFeeSats := 0
  covenantOutputValueSats := 5000
  manifests := [{
    schema := ctvFanoutManifestSchema
    precommitment := samplePrecommitment hex bobSats carolSats
    precommitmentSha256Hex := emptyDigestHex
    commitmentWitnessLeafHex := sampleFanoutLeafHex
    parentCoinbaseTxid := hex.coinbaseTxid
    parentCoinbaseTxHex := hex.coinbaseTx
    parentCoinbaseVout := 1
    covenantOutputValueSats := 5000
    covenantScriptPubkeyHex := "5220" ++ hex.program
    fanoutTxHex := hex.fanoutTx
    fanoutTxid := hex.fanoutTxid }]

def sampleCommitmentRootHex : String := "ffa20ccff0176f1095ac121abcf9289fa3c5f9dbb64e2df6a3ac1a76b53f2e4e"

def sampleCoinbase (hex : SampleHex) : PayoutManifest where
  schema := "qbit.prism.coinbase-manifest.v1"
  blockHeight := 101
  coinbaseValueSats := 10000
  totalWeight := 10000
  coinbaseWeightBytes := 222
  payoutCount := 2
  coinbaseTxHex := hex.coinbaseTx
  coinbaseTxid := hex.coinbaseTxid
  coinbaseWtxid := hex.coinbaseWtxid
  coinbaseScriptSigHex := "0165"
  coinbaseScriptSigSuffixHex := ""
  witnessNonceHex := sampleCommitmentRootHex
  witnessCommitmentScriptHex := "6a24aa21a9ed5939e0bbbe8d7d70209ec5deeb1115a0495613a724afb98a56a0f587ef74dd1a"
  outputs := [
    { alice with
      vout := 0
      scriptPubkeyHex := "5220" ++ alice.p2mrProgramHex
      weight := 5000
      amountSats := 5000 },
    { recipientId := "ctv-fanout-0"
      orderKey := "ctv-fanout-00000000"
      p2mrProgramHex := hex.program
      vout := 1
      scriptPubkeyHex := "5220" ++ hex.program
      weight := 5000
      amountSats := 5000 }]

def sampleSignature : ManifestSignature where
  algorithm := "ed25519"
  publicKeyHex := emptyDigestHex
  signatureHex := emptyDigestHex ++ emptyDigestHex

def sampleBundle (hex : SampleHex) (bobSats carolSats : U64) : AuditBundle where
  schema := "qbit.prism.audit-bundle.v1"
  shares := [sampleShare 1 alice 5, sampleShare 2 bob 3, sampleShare 3 carol 2]
  foundBlock := sampleBlock
  priorBalances := []
  payoutPolicy := samplePayoutPolicy
  coinbaseScriptSigSuffixHex := none
  witnessMerkleLeavesHex := []
  auditCommitmentLeavesHex := ["716269742e707269736d2e61756469742e636f6d6d69746d656e742e7631cb05", sampleFanoutLeafHex]
  auditCommitmentRootHex := some sampleCommitmentRootHex
  ledgerWindowAttestation := {
    schema := "qbit.prism.ledger-window-attestation.v1"
    blockHeight := 101
    coinbaseValueSats := 10000
    anchorJobIssuedAtMs := 1
    networkDifficulty := 2
    shareSliceDigestHex := sampleReward.shareSliceDigestHex
    priorBalancesDigestHex := emptyDigestHex
    signature := sampleSignature }
  rewardManifest := sampleReward
  payoutPolicyManifest := samplePayouts
  settlementModeDecision := some sampleDecision
  ctvFanoutFeePolicy := none
  ctvFanoutManifestSet := some (sampleFanoutSet hex bobSats carolSats)
  signedCoinbaseManifest := { manifest := sampleCoinbase hex, signature := sampleSignature }

def honestHex : SampleHex where
  template :=
    "030000000100000000000000000000000000000000000000000000000000000000000000000000000000" ++
    "0000008003b80b000000000000225220b2b2b2b2b2b2b2b2b2b2b2b2b2b2b2b2b2b2b2b2b2b2b2b2b2b2" ++
    "b2b2b2b2b2b2d007000000000000225220c3c3c3c3c3c3c3c3c3c3c3c3c3c3c3c3c3c3c3c3c3c3c3c3c3" ++
    "c3c3c3c3c3c3c300000000000000000451024e7365000000"
  ctvHash := "adbbbb6bc880a3b401e9e8e85ae928bdff391795b21ce9e8f419b5918ca37777"
  program := "db841a628bd08618a142ea9e4dc2c1c944c4fa862603f750dfe5c2716986e165"
  coinbaseTx :=
    "020000000001010000000000000000000000000000000000000000000000000000000000000000ffffff" ++
    "ff020165feffffff038813000000000000225220a1a1a1a1a1a1a1a1a1a1a1a1a1a1a1a1a1a1a1a1a1a1" ++
    "a1a1a1a1a1a1a1a1a1a18813000000000000225220db841a628bd08618a142ea9e4dc2c1c944c4fa8626" ++
    "03f750dfe5c2716986e1650000000000000000266a24aa21a9ed5939e0bbbe8d7d70209ec5deeb1115a0" ++
    "495613a724afb98a56a0f587ef74dd1a0120ffa20ccff0176f1095ac121abcf9289fa3c5f9dbb64e2df6" ++
    "a3ac1a76b53f2e4e64000000"
  coinbaseTxid := "6dcf6f47efc19c2bef65fbf6155a8959f08a56de7b0822dd3a5a220cef751688"
  coinbaseWtxid := "7c8909761357f032690af72e850fe7be34283eafcefb8dbf4cbe6eb4a72b75db"
  fanoutTx :=
    "03000000000101881675ef0c225a3add22087bde568af059895a15f6fb65ef2b9cc1ef476fcf6d010000" ++
    "00000000008003b80b000000000000225220b2b2b2b2b2b2b2b2b2b2b2b2b2b2b2b2b2b2b2b2b2b2b2b2" ++
    "b2b2b2b2b2b2b2b2d007000000000000225220c3c3c3c3c3c3c3c3c3c3c3c3c3c3c3c3c3c3c3c3c3c3c3" ++
    "c3c3c3c3c3c3c3c3c300000000000000000451024e73022220adbbbb6bc880a3b401e9e8e85ae928bdff" ++
    "391795b21ce9e8f419b5918ca37777bb01c165000000"
  fanoutTxid := "3913a392f28dab4f20824f75432bf5b506e50623430af5d875cb61ce2df06973"

def movedHex : SampleHex where
  template :=
    "030000000100000000000000000000000000000000000000000000000000000000000000000000000000" ++
    "0000008003e803000000000000225220b2b2b2b2b2b2b2b2b2b2b2b2b2b2b2b2b2b2b2b2b2b2b2b2b2b2" ++
    "b2b2b2b2b2b2a00f000000000000225220c3c3c3c3c3c3c3c3c3c3c3c3c3c3c3c3c3c3c3c3c3c3c3c3c3" ++
    "c3c3c3c3c3c3c300000000000000000451024e7365000000"
  ctvHash := "adbbbb6bc880a3b401e9e8e85ae928bd1f111695b21ce9e8f419b5d19dcf7777"
  program := "746a3f628bd08618a142ea9e4dc2c1c944c4fa069778f050dfe5c2716986e132"
  coinbaseTx :=
    "020000000001010000000000000000000000000000000000000000000000000000000000000000ffffff" ++
    "ff020165feffffff038813000000000000225220a1a1a1a1a1a1a1a1a1a1a1a1a1a1a1a1a1a1a1a1a1a1" ++
    "a1a1a1a1a1a1a1a1a1a18813000000000000225220746a3f628bd08618a142ea9e4dc2c1c944c4fa0697" ++
    "78f050dfe5c2716986e1320000000000000000266a24aa21a9ed5939e0bbbe8d7d70209ec5deeb1115a0" ++
    "495613a724afb98a56a0f587ef74dd1a0120ffa20ccff0176f1095ac121abcf9289fa3c5f9dbb64e2df6" ++
    "a3ac1a76b53f2e4e64000000"
  coinbaseTxid := "68555bb19bc19c2bef65fbf6155a8959f08a56de99ecb9592c2a220cef751688"
  coinbaseWtxid := "68f2b5761357f032690af72e850fe7be34285d9465777f8f4cbe6eb4a72aa5bf"
  fanoutTx :=
    "03000000000101881675ef0c222a2c59b9ec99de568af059895a15f6fb65ef2b9cc19bb15b5568010000" ++
    "00000000008003e803000000000000225220b2b2b2b2b2b2b2b2b2b2b2b2b2b2b2b2b2b2b2b2b2b2b2b2" ++
    "b2b2b2b2b2b2b2b2a00f000000000000225220c3c3c3c3c3c3c3c3c3c3c3c3c3c3c3c3c3c3c3c3c3c3c3" ++
    "c3c3c3c3c3c3c3c3c300000000000000000451024e73022220adbbbb6bc880a3b401e9e8e85ae928bd1f" ++
    "111695b21ce9e8f419b5d19dcf7777bb01c165000000"
  fanoutTxid := "3913a3bf03cdab4f20824f75432bf4ab0b7b8215130af5d875cb60fe0f0818fb"

/-- Bob is owed 3000 and Carol 2000, but the fanout of this bundle pays them 1000 and 4000. -/
def movedBundle : AuditBundle := sampleBundle movedHex 1000 4000

def honestBundle : AuditBundle := sampleBundle honestHex 3000 2000

/-- The verifier accepts a bundle that moves 2000 of what Bob is owed to Carol. -/
theorem verifyAuditBundle_accepts_moved_value :
    (∃ report, verifyAuditBundle sampleContext movedBundle emptyDigestHex = .ok report) ∧
      movedBundle.settlementModeDecision.isSome ∧
      sampleAccount bob 3000 ∈ movedBundle.payoutPolicyManifest.accounts ∧
      0 < (sampleAccount bob 3000).onchainAmountSats.val ∧
      ¬ movedBundle.PaysOnce (sampleAccount bob 3000) := by
  have hok : (verifyAuditBundle sampleContext movedBundle emptyDigestHex).isOk = true := by
    decide +kernel
  have hpays : ¬ movedBundle.PaysOnce (sampleAccount bob 3000) := by decide +kernel
  exact ⟨exists_of_isOk hok, rfl, by decide, by decide, hpays⟩

theorem honestBundle_accepted :
    ∃ report, verifyAuditBundle sampleContext honestBundle emptyDigestHex = .ok report := by
  apply exists_of_isOk
  decide +kernel

theorem honestBundle_paysOnce :
    honestBundle.FeesRecorded ∧ honestBundle.PaysOnce (sampleAccount bob 3000) := by
  obtain ⟨report, hreport⟩ := honestBundle_accepted
  have hfees : honestBundle.FeesRecorded := by
    constructor
    · decide +kernel
    · decide +kernel
  have hpays := (verifyAuditBundle_paysOnce_iff hreport rfl).mpr hfees
  exact ⟨hfees, hpays _ (by decide) (by decide)⟩

end QbitPrism
