import Mathlib
import QbitPrism.Lib.Framing
import QbitPrism.Window.Reward

/-!
# What the hand-rolled digests commit to

Both digests feed records to the hash without a count. Strings carry their length, so a prior
balance is told apart whatever follows. A counted share ends in a field that is only sometimes
there; the share after it would need an id of a length no string has to be mistaken for that field.

The prior balances are sorted first, and the sort is stable: balances that tie on the whole sort key
stay in their input order, and the digest sees it.
-/
namespace QbitPrism
open MachineInt Checked SortBy ByteReader Framing List

def ShorterThan (bound : ℕ) (s : String) : Prop := (Hex.utf8 s).length < bound

instance (bound : ℕ) (s : String) : Decidable (ShorterThan bound s) :=
  inferInstanceAs (Decidable ((Hex.utf8 s).length < bound))

theorem selfDelimiting_stringBytes : SelfDelimiting (ShorterThan (2 ^ 64)) stringBytes := by
  intro a b ha hb s t h
  rw [stringBytes, stringBytes, append_assoc, append_assoc] at h
  obtain ⟨hlength, hrest⟩ := selfDelimiting_beBytes 8 ha hb h
  obtain ⟨hbytes, hrest⟩ := append_inj hrest hlength
  exact ⟨Hex.utf8_injective hbytes, hrest⟩

theorem signed_range (width : ℕ) {w : ℕ} (hw : w = 8 * width) (hpos : 0 < width) (value : Signed w) :
    -256 ^ width ≤ 2 * value.val ∧ 2 * value.val < 256 ^ width := by
  have hpow : (256 : ℤ) ^ width = 2 * 2 ^ (w - 1) := by
    rw [show (256 : ℤ) = 2 ^ 8 from by norm_num, ← pow_mul, ← pow_succ']
    congr 1
    omega
  rw [hpow]
  constructor
  · linarith [value.lower]
  · linarith [value.upper]

/-- The sort key: `order_key`, then `recipient_id`, then `p2mr_program_hex`. -/
def balanceCmp (a b : CarryForwardBalance) : Ordering :=
  a.toPayoutIdentity.canonicalCmp b.toPayoutIdentity

instance : Std.TransCmp balanceCmp :=
  transCmp_comap PayoutIdentity.canonicalCmp CarryForwardBalance.toPayoutIdentity

theorem balanceCmp_eq_iff {a b : CarryForwardBalance} : balanceCmp a b = .eq ↔
    a.orderKey = b.orderKey ∧ a.recipientId = b.recipientId ∧ a.p2mrProgramHex = b.p2mrProgramHex := by
  simp only [balanceCmp, PayoutIdentity.canonicalCmp, compareLex_eq_eq, compareOn, Std.LawfulEqCmp.compare_eq_iff_eq]

/-- The bytes `prior_balances_digest` feeds to the hash. -/
def priorBalancesBytes (balances : List CarryForwardBalance) : List UInt8 :=
  (sortBy balanceCmp balances).flatMap priorBalanceBytes

structure CarryForwardBalance.Fits (balance : CarryForwardBalance) : Prop where
  recipientId : ShorterThan (2 ^ 64) balance.recipientId
  orderKey : ShorterThan (2 ^ 64) balance.orderKey
  p2mrProgramHex : ShorterThan (2 ^ 64) balance.p2mrProgramHex

theorem selfDelimiting_priorBalanceBytes :
    SelfDelimiting CarryForwardBalance.Fits priorBalanceBytes := by
  intro a b ha hb s t h
  simp only [priorBalanceBytes, append_assoc] at h
  obtain ⟨hrecipient, h⟩ := selfDelimiting_stringBytes ha.recipientId hb.recipientId h
  obtain ⟨horder, h⟩ := selfDelimiting_stringBytes ha.orderKey hb.orderKey h
  obtain ⟨hprogram, h⟩ := selfDelimiting_stringBytes ha.p2mrProgramHex hb.p2mrProgramHex h
  obtain ⟨hsats, h⟩ := selfDelimiting_beBytesSigned 16 (signed_range 16 rfl (by decide) a.balanceSats)
    (signed_range 16 rfl (by decide) b.balanceSats) h
  refine ⟨?_, h⟩
  obtain ⟨⟨recipientId, orderKey, program⟩, sats⟩ := a
  obtain ⟨⟨recipientId', orderKey', program'⟩, sats'⟩ := b
  obtain rfl : sats = sats' := Signed.ext hsats
  cases hrecipient
  cases horder
  cases hprogram
  rfl

theorem priorBalanceBytes_ne_nil (balance : CarryForwardBalance) : priorBalanceBytes balance ≠ [] := by
  intro h
  have hlength := congrArg List.length h
  simp only [priorBalanceBytes, stringBytes, length_append, length_beBytes, length_nil] at hlength
  omega

theorem sorted_of_priorBalancesBytes {xs ys : List CarryForwardBalance} (hxs : ∀ b ∈ xs, b.Fits)
    (hys : ∀ b ∈ ys, b.Fits) (h : priorBalancesBytes xs = priorBalancesBytes ys) :
    sortBy balanceCmp xs =
      sortBy balanceCmp ys :=
  selfDelimiting_priorBalanceBytes.separates.flatMap_injective
    (fun balance _ => priorBalanceBytes_ne_nil balance)
    (fun b hb => hxs b ((mem_sortBy _).mp hb)) (fun b hb => hys b ((mem_sortBy _).mp hb)) h

theorem perm_of_priorBalancesBytes {xs ys : List CarryForwardBalance} (hxs : ∀ b ∈ xs, b.Fits)
    (hys : ∀ b ∈ ys, b.Fits) (h : priorBalancesBytes xs = priorBalancesBytes ys) : xs.Perm ys :=
  (sortBy_perm _ xs).symm.trans (sorted_of_priorBalancesBytes hxs hys h ▸ sortBy_perm _ ys)

/-- The digest's bytes identify the multiset of the balances exactly when balances that tie on the
whole sort key are equal: what ties stays in its input order. -/
theorem priorBalancesBytes_identify_iff {balances : List CarryForwardBalance} (hfits : ∀ b ∈ balances, b.Fits) :
    (∀ others : List CarryForwardBalance, (∀ b ∈ others, b.Fits) →
        (priorBalancesBytes others = priorBalancesBytes balances ↔ others.Perm balances)) ↔
      ∀ a ∈ balances, ∀ b ∈ balances, a.orderKey = b.orderKey → a.recipientId = b.recipientId →
        a.p2mrProgramHex = b.p2mrProgramHex → a = b := by
  constructor
  · intro hidentify a ha b hb horder hrecipient hprogram
    by_contra hne
    -- The two balances in either order, before all the others.
    set rest := (balances.erase a).erase b
    have hperm : balances.Perm (a :: b :: rest) :=
      (perm_cons_erase ha).trans
        ((perm_cons_erase ((mem_erase_of_ne (Ne.symm hne)).mpr hb)).cons a)
    have hsort : ∀ others : List CarryForwardBalance, others.Perm balances →
        sortBy balanceCmp others =
          sortBy balanceCmp balances := by
      intro others hothers
      have hothersFit : ∀ b ∈ others, b.Fits := fun b hb => hfits b (hothers.mem_iff.mp hb)
      exact sorted_of_priorBalancesBytes hothersFit hfits ((hidentify others hothersFit).mpr hothers)
    have hsame := (hsort _ hperm.symm).trans (hsort _ ((List.Perm.swap a b rest).trans hperm.symm)).symm
    have hkept := congrArg (List.filter fun c => balanceCmp a c = .eq) hsame
    rw [filter_sortBy, filter_sortBy] at hkept
    have htie : balanceCmp a b = .eq := balanceCmp_eq_iff.mpr ⟨horder, hrecipient, hprogram⟩
    have hself : balanceCmp a a = .eq := Std.ReflCmp.compare_self
    simp only [filter_cons, htie, hself, decide_true, if_true, List.cons.injEq] at hkept
    exact hne hkept.1
  · intro hties others hothers
    refine ⟨perm_of_priorBalancesBytes hothers hfits, fun hperm => ?_⟩
    have hsorted := sortBy_congr balanceCmp hperm.symm ?_
    · rw [priorBalancesBytes, priorBalancesBytes, hsorted]
    · intro a ha b hb hcmp
      obtain ⟨horder, hrecipient, hprogram⟩ := balanceCmp_eq_iff.mp hcmp
      exact hties a ha b hb horder hrecipient hprogram

def minerBalance (recipientId : String) (balanceSats : I128) : CarryForwardBalance where
  recipientId
  orderKey := "miner"
  p2mrProgramHex := "aa"
  balanceSats

theorem priorBalancesBytes_identify_two_recipients :
    (∀ b ∈ [minerBalance "alice" 1, minerBalance "bob" 2], b.Fits) ∧
      priorBalancesBytes [minerBalance "bob" 2, minerBalance "alice" 1] =
        priorBalancesBytes [minerBalance "alice" 1, minerBalance "bob" 2] := by
  have hfits : ∀ b ∈ [minerBalance "alice" 1, minerBalance "bob" 2], b.Fits := by
    intro b hb
    fin_cases hb <;> exact ⟨by decide, by decide, by decide⟩
  refine ⟨hfits, ((priorBalancesBytes_identify_iff hfits).mpr ?_ _ ?_).mpr (List.Perm.swap _ _ _)⟩
  · decide
  · exact fun b hb => hfits b ((List.Perm.swap _ _ _ : List.Perm _ _).mem_iff.mp hb)

/-- Two balances that tie on the whole sort key give another digest in the other order. -/
theorem priorBalancesBytes_tied :
    [minerBalance "alice" 1, minerBalance "alice" 2].Perm [minerBalance "alice" 2, minerBalance "alice" 1] ∧
      priorBalancesBytes [minerBalance "alice" 1, minerBalance "alice" 2] ≠
        priorBalancesBytes [minerBalance "alice" 2, minerBalance "alice" 1] :=
  ⟨List.Perm.swap _ _ _, by decide +kernel⟩

/-- The bytes `share_slice_digest_hex` feeds to the hash. -/
def shareSliceBytes (shares : List CountedShare) : List UInt8 := shares.flatMap sliceDigestBytes

/-- Every string of the share is shorter than this. -/
structure CountedShare.StringsBelow (bound : ℕ) (share : CountedShare) : Prop where
  shareId : ShorterThan bound share.shareId
  minerId : ShorterThan bound share.minerId
  orderKey : ShorterThan bound share.orderKey
  p2mrProgramHex : ShorterThan bound share.p2mrProgramHex
  creditPolicy : ∀ policy ∈ share.creditPolicy, ShorterThan bound policy

theorem ShorterThan.mono {bound bound' : ℕ} {s : String} (h : ShorterThan bound s) (hle : bound ≤ bound') :
    ShorterThan bound' s := lt_of_lt_of_le h hle

def creditPolicyBytes : Option String → List UInt8
  | none => []
  | some creditPolicy => stringBytes "credit_policy" ++ stringBytes creditPolicy

def fixedSliceBytes (share : CountedShare) : List UInt8 := sliceDigestBytes { share with creditPolicy := none }

theorem sliceDigestBytes_eq (share : CountedShare) :
    sliceDigestBytes share = fixedSliceBytes share ++ creditPolicyBytes share.creditPolicy := by
  simp only [sliceDigestBytes, fixedSliceBytes, append_assoc, append_nil]
  cases share.creditPolicy <;> rfl

theorem tag_not_share {share : CountedShare} (hid : ShorterThan (2 ^ 62) share.shareId) (policy s t : List UInt8) :
    sliceDigestBytes share ++ s ≠ stringBytes "credit_policy" ++ (policy ++ t) := by
  intro h
  have htag : stringBytes "credit_policy" =
      beBytes 8 13 ++ (beBytes 8 0x6372656469745f70 ++ Hex.utf8 "olicy") := by decide +kernel
  rw [htag, sliceDigestBytes, stringBytes] at h
  simp only [append_assoc] at h
  obtain ⟨-, h⟩ := append_inj h (by rw [length_beBytes, length_beBytes])
  obtain ⟨hlength, -⟩ := selfDelimiting_beBytes 8 (hid.trans (by norm_num)) (by norm_num) h
  unfold ShorterThan at hid
  omega

theorem fixedSliceBytes_inj {a b : CountedShare} (ha : a.StringsBelow (2 ^ 62)) (hb : b.StringsBelow (2 ^ 62))
    {s t : List UInt8} (h : fixedSliceBytes a ++ s = fixedSliceBytes b ++ t) :
    { a with creditPolicy := none } = { b with creditPolicy := none } ∧ s = t := by
  have hlong : ∀ {value : String}, ShorterThan (2 ^ 62) value → ShorterThan (2 ^ 64) value :=
    fun hshort => hshort.mono (by norm_num)
  simp only [fixedSliceBytes, sliceDigestBytes, append_assoc, nil_append] at h
  obtain ⟨hseq, h⟩ := selfDelimiting_beBytes 8 a.shareSeq.isLt b.shareSeq.isLt h
  obtain ⟨hid, h⟩ := selfDelimiting_stringBytes (hlong ha.shareId) (hlong hb.shareId) h
  obtain ⟨hminer, h⟩ := selfDelimiting_stringBytes (hlong ha.minerId) (hlong hb.minerId) h
  obtain ⟨horder, h⟩ := selfDelimiting_stringBytes (hlong ha.orderKey) (hlong hb.orderKey) h
  obtain ⟨hprogram, h⟩ := selfDelimiting_stringBytes (hlong ha.p2mrProgramHex) (hlong hb.p2mrProgramHex) h
  obtain ⟨hdifficulty, h⟩ := selfDelimiting_beBytes 16 a.shareDifficulty.isLt b.shareDifficulty.isLt h
  obtain ⟨hcounted, h⟩ := selfDelimiting_beBytes 16 a.countedDifficulty.isLt b.countedDifficulty.isLt h
  obtain ⟨hissued, h⟩ := selfDelimiting_beBytesSigned 8 (signed_range 8 rfl (by decide) a.jobIssuedAtMs)
    (signed_range 8 rfl (by decide) b.jobIssuedAtMs) h
  obtain ⟨haccepted, h⟩ := selfDelimiting_beBytesSigned 8 (signed_range 8 rfl (by decide) a.acceptedAtMs)
    (signed_range 8 rfl (by decide) b.acceptedAtMs) h
  refine ⟨?_, h⟩
  rw [CountedShare.mk.injEq]
  exact ⟨Unsigned.ext hseq, hid, hminer, horder, hprogram, Unsigned.ext hdifficulty, Unsigned.ext hcounted,
    Signed.ext hissued, Signed.ext haccepted, rfl⟩

theorem creditPolicyBytes_ne {shares : List CountedShare} (hshares : ∀ x ∈ shares, x.StringsBelow (2 ^ 62))
    (policy : String) (t : List UInt8) :
    shares.flatMap sliceDigestBytes ≠ creditPolicyBytes (some policy) ++ t := by
  rw [creditPolicyBytes, append_assoc]
  cases shares with
  | nil =>
    intro h
    have hlength := congrArg List.length h
    simp only [stringBytes, flatMap_nil, length_nil, length_append, length_beBytes] at hlength
    omega
  | cons share rest =>
    rw [flatMap_cons]
    exact tag_not_share (hshares share mem_cons_self).shareId _ _ _

theorem separates_sliceDigestBytes : Separates (CountedShare.StringsBelow (2 ^ 62)) sliceDigestBytes := by
  intro a b ha hb xs ys hxs hys h
  rw [sliceDigestBytes_eq, sliceDigestBytes_eq, append_assoc, append_assoc] at h
  obtain ⟨hfixed, h⟩ := fixedSliceBytes_inj ha hb h
  have hwhole : a.creditPolicy = b.creditPolicy → a = b := by
    intro hpolicy
    rw [CountedShare.mk.injEq] at hfixed
    obtain ⟨hseq, hid, hminer, horder, hprogram, hdifficulty, hcounted, hissued, haccepted, -⟩ := hfixed
    cases a
    cases b
    rw [CountedShare.mk.injEq]
    exact ⟨hseq, hid, hminer, horder, hprogram, hdifficulty, hcounted, hissued, haccepted, hpolicy⟩
  cases hpa : a.creditPolicy with
  | none =>
    cases hpb : b.creditPolicy with
    | none =>
      rw [hpa, hpb] at h
      exact ⟨hwhole (hpa.trans hpb.symm), h⟩
    | some policy =>
      rw [hpa, hpb] at h
      exact absurd h (creditPolicyBytes_ne hxs policy _)
  | some policy =>
    cases hpb : b.creditPolicy with
    | none =>
      rw [hpa, hpb] at h
      exact absurd h.symm (creditPolicyBytes_ne hys policy _)
    | some policy' =>
      rw [hpa, hpb, creditPolicyBytes, creditPolicyBytes, append_assoc, append_assoc] at h
      obtain ⟨-, h⟩ := append_inj h rfl
      obtain ⟨hsame, h⟩ := selfDelimiting_stringBytes
        ((ha.creditPolicy policy hpa).mono (by norm_num)) ((hb.creditPolicy policy' hpb).mono (by norm_num)) h
      exact ⟨hwhole (by rw [hpa, hpb, hsame]), h⟩

/-- The bytes of the slice digest fix the shares. -/
theorem shareSliceBytes_injective {shares others : List CountedShare}
    (hshares : ∀ share ∈ shares, share.StringsBelow (2 ^ 62))
    (hothers : ∀ share ∈ others, share.StringsBelow (2 ^ 62))
    (h : shareSliceBytes shares = shareSliceBytes others) : shares = others := by
  refine separates_sliceDigestBytes.flatMap_injective ?_ hshares hothers h
  intro share _ hnil
  have hlength := congrArg List.length hnil
  simp only [sliceDigestBytes, length_append, length_beBytes, length_nil] at hlength
  omega

def sliceShare (creditPolicy : Option String) : CountedShare where
  shareSeq := 13
  shareId := "share"
  minerId := "miner"
  orderKey := "miner"
  p2mrProgramHex := "aa"
  shareDifficulty := 1
  countedDifficulty := 1
  jobIssuedAtMs := 5
  acceptedAtMs := 6
  creditPolicy

theorem shareSliceBytes_injective_two :
    shareSliceBytes ([sliceShare none] ++ [sliceShare (some "grace")]) =
        shareSliceBytes [sliceShare none, sliceShare (some "grace")] ∧
      [sliceShare none] ++ [sliceShare (some "grace")] = [sliceShare none, sliceShare (some "grace")] := by
  have hfits : ∀ share ∈ [sliceShare none, sliceShare (some "grace")], share.StringsBelow (2 ^ 62) := by
    intro share hshare
    fin_cases hshare <;> exact ⟨by decide, by decide, by decide, by decide, by decide⟩
  exact ⟨rfl, shareSliceBytes_injective hfits hfits rfl⟩

end QbitPrism
