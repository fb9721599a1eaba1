import Mathlib
import QbitPrism.Audit.Soundness
import QbitPrism.Audit.Stored

/-!
# Landing an audit and reading it back

`landing_from_parts` proves a claim's parts and stores the body without its windows;
`materialize_audit_row` reads the shares again, folds the window and proves the bytes.
-/
namespace QbitPrism
open MachineInt Checked Fields ByteReader

variable {L : Type}

structure ClaimParts where
  body : AuditBundleBody
  shares : List AcceptedShare

structure ShareRange where
  firstShareSeq : U64
  lastShareSeq : U64
  shareCount : U64
  snapshotSha256 : Bytes 32

structure WindowRef where
  anchorMs : I64
  priorBalancesDigest : Bytes 32
  shares : Option ShareRange
  cut : Option WindowCut

structure AuditSnapshotWrite (L : Type) where
  digest : String
  firstShareSeq : I64
  lastShareSeq : I64
  anchorMs : I64
  networkDifficulty : U128
  shareCount : I64
  inlineShares : Option (Value L)
  cut : Option WindowCut
  shares : List AcceptedShare

structure AuditLanding (L : Type) where
  report : AuditVerificationReport
  body : Object L
  auditBodyByteLen : I64
  auditCommitmentLeaves : Value L
  witnessMerkleLeaves : Value L
  accounts : Value L
  priorBalancesDigest : Bytes 32
  snapshot : AuditSnapshotWrite L

inductive LandingError where
  | prism (error : PrismError)
  | refused (message : String)

/-- The verifier's context, the stored JSON, and the JSON a share snapshot is hashed as. -/
structure LandingContext (L : Type) extends AuditContext where
  json : AuditCodecs L
  sharesBytes : List AcceptedShare → List UInt8

variable (ctx : LandingContext L)

def ensure (c : Prop) [Decidable c] (message : String) : Except LandingError Unit :=
  require c (.refused message)

def toI64 (n : ℕ) : Except LandingError I64 :=
  okOr (Signed.ofInt? n) (.refused "out of range integral type conversion attempted")

def priorBalancesDigest (crypto : Crypto) (balances : List CarryForwardBalance) : Bytes 32 :=
  crypto.sha256 ((SortBy.sortBy (fun a b => a.toPayoutIdentity.canonicalCmp b.toPayoutIdentity)
    balances).flatMap priorBalanceBytes)

/-- The body without the counted window inside its reward manifest. -/
def storedBody (body : AuditBundleBody) : Except LandingError (Object L) :=
  let stored := body.toObject ctx.json
  match stored.get? "reward_manifest" with
  | some (.object manifest) =>
    .ok (stored.insert "reward_manifest" (.object (Object.remove manifest "shares")))
  | _ => .error (.refused "audit reward manifest is not an object")

def snapshotDigest (shares : List AcceptedShare) : String :=
  ctx.sha256Hex (ctx.sharesBytes shares)

/-- The stored endpoints, and the shares of a window that is not in the ledger. -/
def snapshotRange (shares : List AcceptedShare) (window : WindowRef)
    (bootstrap : Option AcceptedShare) : Except LandingError (I64 × I64 × Option (Value L)) :=
  match window.shares, bootstrap with
  | some range, _ => do
    let digest := snapshotDigest ctx shares
    let reference := Hex.encode range.snapshotSha256.toList
    ensure (digest = reference)
      s!"rebuilt share snapshot {digest} differs from the candidate's window reference {reference}"
    ensure (shares.head?.map (·.shareSeq) = some range.firstShareSeq ∧
        shares.getLast?.map (·.shareSeq) = some range.lastShareSeq ∧
        shares.length = range.shareCount.val)
      "rebuilt share snapshot bounds differ from the candidate's window reference"
    let first ← toI64 range.firstShareSeq.val
    let last ← toI64 range.lastShareSeq.val
    pure (first, last, none)
  | none, some bootstrap => do
    ensure (shares = [bootstrap])
      "empty-window audit parts do not hold the candidate's bootstrap share"
    let first ← toI64 bootstrap.shareSeq.val
    pure (first, first, some (ctx.json.acceptedShares.toValue shares))
  | none, none => .error (.refused "candidate bootstrap share disagrees with its window reference")

def landingFromParts (parts : ClaimParts) (window : WindowRef) (bootstrap : Option AcceptedShare)
    (ledgerPublicKey : String) : Except LandingError (AuditLanding L) := do
  let body := parts.body
  let shares := parts.shares
  let report ← (verifyAuditParts ctx.toAuditContext body shares ledgerPublicKey).mapError .prism
  let digest := priorBalancesDigest ctx.toCrypto body.priorBalances
  let rebuilt := Hex.encode digest.toList
  let reference := Hex.encode window.priorBalancesDigest.toList
  ensure (digest = window.priorBalancesDigest)
    s!"rebuilt audit prior balances {rebuilt} differ from the candidate's window reference {reference}"
  let stored ← storedBody ctx body
  let bytes := canonicalAuditBundleBytesFromParts ctx.toAuditContext body shares
  ensure (shares ≠ []) "audit share snapshot cannot be empty"
  ensure (pairwiseSeq (fun a b => a < b) shares = true)
    "audit share snapshot must be ordered canonically"
  let (first, last, inlineShares) ← snapshotRange ctx shares window bootstrap
  ensure (body.foundBlock.anchorJobIssuedAtMs = window.anchorMs)
    "audit parts anchor differs from the candidate's window reference"
  let committedCut := window.shares.bind fun _ => window.cut
  ensure (body.rewardManifest.cut = committedCut)
    "audit parts' window cut differs from the candidate's window reference"
  let auditBodyByteLen ← toI64 bytes.length
  let shareCount ← toI64 shares.length
  pure {
    report
    body := stored
    auditBodyByteLen
    auditCommitmentLeaves := ctx.json.strings.toValue body.auditCommitmentLeavesHex
    witnessMerkleLeaves := ctx.json.strings.toValue body.witnessMerkleLeavesHex
    accounts := ctx.json.accounts.toValue body.payoutPolicyManifest.accounts
    priorBalancesDigest := digest
    snapshot := {
      digest := snapshotDigest ctx shares
      firstShareSeq := first
      lastShareSeq := last
      anchorMs := window.anchorMs
      networkDifficulty := body.foundBlock.networkDifficulty
      shareCount
      inlineShares
      cut := window.cut
      shares } }

/-- A row of `qbit_prism_audit_snapshots`. -/
structure AuditSnapshotRow (L : Type) where
  snapshotSha256 : String
  firstShareSeq : I64
  lastShareSeq : I64
  anchorMs : I64
  shareCount : I64
  inlineShares : Option (Value L)
  cutSeq0 : Option I64
  cutSeq1 : Option I64

/-- A cut's entry as a column: `0` for none. -/
def cutColumn (entry : Option U64) : Except LandingError I64 :=
  toI64 (entry.elim 0 (·.val))

def cutColumns : Option WindowCut → Except LandingError (Option I64 × Option I64)
  | none => .ok (none, none)
  | some cut => do
    let node0 ← cutColumn cut.node0
    let node1 ← cutColumn cut.node1
    pure (some node0, some node1)

def positiveEntry (value : I64) : Except LandingError (Option U64) := do
  let seq := value.val
  ensure (0 ≤ seq) s!"negative share_seq {seq} where a window cut entry belongs"
  let entry : U64 := .wrapping seq.toNat
  pure (if entry = 0 then none else some entry)

def WindowCut.new (node0 node1 : Option U64) : Except LandingError WindowCut :=
  if h : node0 ≠ some 0 ∧ node1 ≠ some 0 then .ok ⟨node0, node1, h.1, h.2⟩
  else .error (.refused "a window cut entry must be a share_seq of at least 1, or null")

def cutFromColumns : Option I64 → Option I64 → Except LandingError (Option WindowCut)
  | none, none => .ok none
  | some node0, some node1 => do
    let entry0 ← positiveEntry node0
    let entry1 ← positiveEntry node1
    let cut ← WindowCut.new entry0 entry1
    pure (some cut)
  | _, _ => .error (.refused "window cut columns are half set")

/-- The row `persist_audit_snapshot` inserts. -/
def snapshotRow (snapshot : AuditSnapshotWrite L) : Except LandingError (AuditSnapshotRow L) := do
  ensure (0 < snapshot.shareCount.val) "audit share snapshot cannot be empty"
  let (cutSeq0, cutSeq1) ← cutColumns snapshot.cut
  pure {
    snapshotSha256 := snapshot.digest
    firstShareSeq := snapshot.firstShareSeq
    lastShareSeq := snapshot.lastShareSeq
    anchorMs := snapshot.anchorMs
    shareCount := snapshot.shareCount
    inlineShares := snapshot.inlineShares
    cutSeq0
    cutSeq1 }

/-- An audit row as the reader loads it; `auditBundle` is `none` for null. -/
structure AuditRow (L : Type) where
  auditBundle : Option (Object L)
  auditBundleSha256 : Option String
  shareSnapshotSha256 : Option String

structure AuditReader (L : Type) where
  snapshots : String → Option (AuditSnapshotRow L)
  readRange : (first last anchorMs : I64) → Option WindowCut → Except LandingError (List AcceptedShare)

def readSnapshot (reader : AuditReader L) (snapshot : AuditSnapshotRow L) :
    Except LandingError (List AcceptedShare) :=
  match snapshot.inlineShares with
  | some inlineShares => (ctx.json.acceptedShares.fromValue inlineShares).mapError .refused
  | none => do
    let cut ← cutFromColumns snapshot.cutSeq0 snapshot.cutSeq1
    reader.readRange snapshot.firstShareSeq snapshot.lastShareSeq snapshot.anchorMs cut

/-- The body with its windows: a normalized one has its counted window folded again. -/
def restoreBody (shares : List AcceptedShare) (body : Object L) : Except LandingError (Object L) := do
  let body ← match body.get? "reward_manifest" with
    | some (.object manifest) =>
      if (Object.get? manifest "shares").isNone then do
        let header ← (PrismRewardManifestHeader.fromObject ctx.json manifest).mapError .refused
        let foundBlock ← (ctx.json.foundBlock.field "found_block" body).mapError .refused
        let manifest ← (restoreRewardManifest ctx.toCrypto header shares foundBlock).mapError .prism
        pure (body.insert "reward_manifest" (.object (manifest.toObject ctx.json)))
      else pure body
    | _ => pure body
  pure (body.insert "shares" (ctx.json.acceptedShares.toValue shares))

def materializeAuditRow (reader : AuditReader L) (row : AuditRow L) (canonical : Bool) :
    Except LandingError (Option (List UInt8) × AuditRow L) :=
  match row.shareSnapshotSha256 with
  | none => .ok (none, row)
  | some digest => do
    let snapshot ← okOr (reader.snapshots digest) (.refused "no rows returned by a query")
    let shares ← readSnapshot ctx reader snapshot
    ensure ((shares.length : ℤ) = snapshot.shareCount.val) "audit share history is incomplete"
    let body ← okOr row.auditBundle (.refused "audit metadata body is missing")
    ensure (canonical = false ∨ row.auditBundleSha256.isSome)
      "canonical reconstruction needs the row's audit digest"
    ensure (snapshotDigest ctx shares = digest) "audit share snapshot digest mismatch"
    let body ← restoreBody ctx shares body
    match row.auditBundleSha256 with
    | none => pure (none, { row with auditBundle := some body })
    | some expected => do
      let bundle ← (AuditBundle.fromObject ctx.json body).mapError .refused
      let bytes := ctx.auditBundleBytes bundle
      ensure (ctx.sha256Hex bytes = expected) "materialized audit body digest mismatch"
      if canonical then pure (some bytes, { row with auditBundle := none })
      else pure (none, { row with auditBundle := some body })

theorem toI64_eq_ok {n : ℕ} {value : I64} : toI64 n = .ok value ↔ value.val = n := by
  rw [toI64, okOr_eq_ok, Signed.ofInt?_eq_some]

theorem ensure_eq_ok {c : Prop} [Decidable c] {message : String} {u : Unit} :
    ensure c message = .ok u ↔ c := require_eq_ok

theorem positiveEntry_cutColumn {entry : Option U64} (hne : entry ≠ some 0) {value : I64}
    (h : cutColumn entry = .ok value) : positiveEntry value = .ok entry := by
  rw [cutColumn, toI64_eq_ok] at h
  have hnonneg : 0 ≤ value.val := by omega
  rw [positiveEntry, ensure, require_of hnonneg, ok_bind]
  cases entry with
  | none =>
    rw [h]
    rfl
  | some entry =>
    have hentry : (Unsigned.wrapping value.val.toNat : U64) = entry := by
      rw [h]
      exact Unsigned.wrapping_self entry
    have hpositive : entry ≠ 0 := fun hzero => hne (congrArg some hzero)
    rw [hentry]
    exact congrArg Except.ok (if_neg hpositive)

theorem cutFromColumns_cutColumns {cut : Option WindowCut} {node0 node1 : Option I64}
    (h : cutColumns cut = .ok (node0, node1)) : cutFromColumns node0 node1 = .ok cut := by
  cases cut with
  | none =>
    cases h
    rfl
  | some cut =>
    simp only [cutColumns, bind_eq_ok, pure_eq_ok, Prod.mk.injEq] at h
    obtain ⟨value0, h0, value1, h1, rfl, rfl⟩ := h
    have hnew : WindowCut.new cut.node0 cut.node1 = .ok cut := dif_pos ⟨cut.node0_ne, cut.node1_ne⟩
    rw [cutFromColumns, positiveEntry_cutColumn cut.node0_ne h0, ok_bind,
      positiveEntry_cutColumn cut.node1_ne h1, ok_bind, hnew, ok_bind]
    rfl

theorem verifyAuditBundle_rebuilds {actx : AuditContext} {bundle : AuditBundle} {key : String}
    {report : AuditVerificationReport} (h : verifyAuditBundle actx bundle key = .ok report) :
    buildPrismRewardManifestWithCut actx.toCrypto bundle.shares bundle.foundBlock
      bundle.rewardManifest.cut = .ok bundle.rewardManifest := by
  simp only [verifyAuditBundle, bind_eq_ok, auditRequire_eq_ok, mapError_eq_ok] at h
  obtain ⟨-, -, -, -, -, -, rebuilt, hrebuilt, -, heq, -⟩ := h
  rw [hrebuilt, heq]

variable {ctx}

theorem AuditBundleBody.get?_rewardManifest (body : AuditBundleBody) :
    (body.toObject ctx.json).get? "reward_manifest" =
      some (.object (body.rewardManifest.toObject ctx.json)) := by
  simp [toObject, Object.get?_append, Object.get?_cons, Codec.skipped_get?_of_ne]

/-- The body with the header of its reward manifest for the manifest. -/
def normalizedBody (ctx : LandingContext L) (body : AuditBundleBody) : Object L :=
  (body.toObject ctx.json).insert "reward_manifest"
    (.object (body.rewardManifest.intoParts.1.toObject ctx.json))

theorem storedBody_eq (body : AuditBundleBody) :
    storedBody ctx body = .ok (normalizedBody ctx body) := by
  rw [storedBody, body.get?_rewardManifest]
  exact congrArg (fun fields => Except.ok (Object.insert _ _ (.object fields)))
    (body.rewardManifest.toObject_remove_shares ctx.json)

variable {shares : List AcceptedShare} {bootstrap : Option AcceptedShare} {landing : AuditLanding L}

theorem restoreBody_normalizedBody {body : AuditBundleBody}
    (hbuild : buildPrismRewardManifestWithCut ctx.toCrypto shares body.foundBlock body.rewardManifest.cut = .ok body.rewardManifest) :
    ∃ o, restoreBody ctx shares (normalizedBody ctx body) = .ok o ∧
      AuditBundle.fromObject ctx.json o = .ok (body.intoBundle shares) := by
  have hmanifest : (normalizedBody ctx body).get? "reward_manifest" =
      some (.object (body.rewardManifest.intoParts.1.toObject ctx.json)) :=
    Object.get?_insert_self _ _ _
  have hheader := PrismRewardManifestHeader.fromObject_toObject ctx.json
    body.rewardManifest.intoParts.1
  have hnormal : (Object.get? (body.rewardManifest.intoParts.1.toObject ctx.json) "shares").isNone =
      true := by
    rw [← body.rewardManifest.toObject_remove_shares, Object.get?_remove_self]
    rfl
  have hblock : ctx.json.foundBlock.field "found_block" (normalizedBody ctx body) =
      .ok body.foundBlock := by
    apply Codec.field_of_get?
    rw [normalizedBody, Object.get?_insert_of_ne (by decide)]
    simp [AuditBundleBody.toObject, Object.get?_cons]
  have hrestored := restoreRewardManifest_intoParts hbuild
  refine ⟨((normalizedBody ctx body).insert "reward_manifest"
    (.object (body.rewardManifest.toObject ctx.json))).insert "shares"
      (ctx.json.acceptedShares.toValue shares), ?_, ?_⟩
  · simp only [restoreBody, hmanifest, hnormal, if_true, hheader, hblock, hrestored, Except.mapError, ok_bind]
    rfl
  · apply AuditBundle.fromObject_of_get?
    · intro key hkey
      rw [Object.get?_insert_of_ne hkey]
      by_cases hkey' : key = "reward_manifest"
      · subst hkey'
        rw [Object.get?_insert_self, body.get?_rewardManifest]
      · rw [Object.get?_insert_of_ne hkey', normalizedBody, Object.get?_insert_of_ne hkey']
    · exact Object.get?_insert_self _ _ _

structure Landed (ctx : LandingContext L) (parts : ClaimParts) (landing : AuditLanding L) : Prop where
  rebuilds : buildPrismRewardManifestWithCut ctx.toCrypto parts.shares parts.body.foundBlock
    parts.body.rewardManifest.cut = .ok parts.body.rewardManifest
  body : landing.body = normalizedBody ctx parts.body
  digest : landing.snapshot.digest = snapshotDigest ctx parts.shares
  shareCount : landing.snapshot.shareCount.val = parts.shares.length
  inlineShares : ∀ inlineShares, landing.snapshot.inlineShares = some inlineShares →
    inlineShares = ctx.json.acceptedShares.toValue parts.shares

theorem snapshotRange_inline {window : WindowRef} {first last : I64} {inlineShares : Option (Value L)}
    (h : snapshotRange ctx shares window bootstrap = .ok (first, last, inlineShares)) :
    ∀ v, inlineShares = some v → v = ctx.json.acceptedShares.toValue shares := by
  intro v hv
  subst hv
  unfold snapshotRange at h
  split at h
  · simp only [bind_eq_ok, pure_eq_ok, Prod.mk.injEq] at h
    obtain ⟨-, -, -, -, -, -, -, -, -, -, hnone⟩ := h
    cases hnone
  · simp only [bind_eq_ok, pure_eq_ok, Prod.mk.injEq] at h
    obtain ⟨-, -, -, -, -, -, hsome⟩ := h
    exact (Option.some.inj hsome).symm
  · cases h

theorem landingFromParts_eq_ok {parts : ClaimParts} {window : WindowRef} {key : String}
    (h : landingFromParts ctx parts window bootstrap key = .ok landing) : Landed ctx parts landing := by
  simp only [landingFromParts, bind_eq_ok, mapError_eq_ok, pure_eq_ok, ensure_eq_ok, toI64_eq_ok] at h
  obtain ⟨report, hverified, -, -, stored, hstored, -, -, -, -, ⟨first, last, inlineShares⟩, hrange, -, -, -,
    -, length, -, count, hcount, rfl⟩ := h
  rw [storedBody_eq, Except.ok.injEq] at hstored
  exact ⟨verifyAuditBundle_rebuilds hverified, hstored.symm, rfl, hcount, snapshotRange_inline hrange⟩

theorem readSnapshot_landed {reader : AuditReader L} {parts : ClaimParts} (hlanded : Landed ctx parts landing)
    {row : AuditSnapshotRow L} (hrow : snapshotRow landing.snapshot = .ok row)
    (hread : landing.snapshot.inlineShares = none → reader.readRange landing.snapshot.firstShareSeq landing.snapshot.lastShareSeq landing.snapshot.anchorMs landing.snapshot.cut = .ok parts.shares) :
    readSnapshot ctx reader row = .ok parts.shares := by
  simp only [snapshotRow, bind_eq_ok, pure_eq_ok] at hrow
  obtain ⟨-, -, ⟨node0, node1⟩, hcolumns, rfl⟩ := hrow
  cases hinline : landing.snapshot.inlineShares with
  | some inlineShares =>
    obtain rfl := hlanded.inlineShares inlineShares hinline
    simp only [readSnapshot, ctx.json.acceptedShares.fromValue_toValue, Except.mapError]
  | none =>
    simp only [readSnapshot, cutFromColumns_cutColumns hcolumns, ok_bind]
    exact hread hinline

/-- A landed audit reads back as the bytes it was proved for. -/
theorem materializeAuditRow_landed (ctx : LandingContext L) (reader : AuditReader L) (parts : ClaimParts)
    (window : WindowRef) (bootstrap : Option AcceptedShare) (key : String) (landing : AuditLanding L)
    (row : AuditSnapshotRow L) (hlanding : landingFromParts ctx parts window bootstrap key = .ok landing)
    (hrow : snapshotRow landing.snapshot = .ok row) (hstored : reader.snapshots landing.snapshot.digest = some row)
    (hread : landing.snapshot.inlineShares = none → reader.readRange landing.snapshot.firstShareSeq
      landing.snapshot.lastShareSeq landing.snapshot.anchorMs landing.snapshot.cut = .ok parts.shares) :
    (materializeAuditRow ctx reader
      { auditBundle := some landing.body
        auditBundleSha256 := some (ctx.sha256Hex
          (canonicalAuditBundleBytesFromParts ctx.toAuditContext parts.body parts.shares))
        shareSnapshotSha256 := some landing.snapshot.digest } true).map Prod.fst =
      .ok (some (canonicalAuditBundleBytesFromParts ctx.toAuditContext parts.body parts.shares)) := by
  have hlanded := landingFromParts_eq_ok hlanding
  have hshares := readSnapshot_landed hlanded hrow hread
  have hcount : (parts.shares.length : ℤ) = row.shareCount.val := by
    simp only [snapshotRow, bind_eq_ok, pure_eq_ok] at hrow
    obtain ⟨-, -, -, -, rfl⟩ := hrow
    exact hlanded.shareCount.symm
  obtain ⟨o, hrestored, hbundle⟩ := restoreBody_normalizedBody hlanded.rebuilds
  simp only [materializeAuditRow, hstored, okOr_some, ok_bind, hshares, ensure, require_of hcount, require_of
    hlanded.digest.symm, hlanded.body, hrestored, hbundle, Except.mapError, canonicalAuditBundleBytesFromParts]
  rw [require_of (.inr rfl), ok_bind, require_of trivial, ok_bind, if_pos trivial]
  rfl

def placeCodec {α : Type} (put : α → AuditBundle) (get : AuditBundle → α)
    (hget : ∀ a, get (put a) = a) : Codec AuditBundle α where
  toValue a := .leaf (put a)
  fromValue
    | .leaf bundle => .ok (get bundle)
    | .object _ => .error "invalid type"
  fromValue_toValue a := congrArg Except.ok (hget a)

def withReward (manifest : PrismRewardManifest) : AuditBundle :=
  { honestBundle with rewardManifest := manifest }

def sampleCodecs : AuditCodecs AuditBundle where
  string := placeCodec (fun a => { honestBundle with schema := a }) (·.schema) fun _ => rfl
  strings := placeCodec (fun a => { honestBundle with witnessMerkleLeavesHex := a })
    (·.witnessMerkleLeavesHex) fun _ => rfl
  optionalString := placeCodec (fun a => { honestBundle with auditCommitmentRootHex := a })
    (·.auditCommitmentRootHex) fun _ => rfl
  u64 := placeCodec (fun a => withReward { sampleReward with blockHeight := a })
    (·.rewardManifest.blockHeight) fun _ => rfl
  u128 := placeCodec (fun a => withReward { sampleReward with networkDifficulty := a })
    (·.rewardManifest.networkDifficulty) fun _ => rfl
  i64 := placeCodec (fun a => withReward { sampleReward with anchorJobIssuedAtMs := a })
    (·.rewardManifest.anchorJobIssuedAtMs) fun _ => rfl
  usize := placeCodec (fun a => withReward { sampleReward with includedShareCount := a })
    (·.rewardManifest.includedShareCount) fun _ => rfl
  cut := placeCodec (fun a => withReward { sampleReward with cut := a })
    (·.rewardManifest.cut) fun _ => rfl
  acceptedShares := placeCodec (fun a => { honestBundle with shares := a }) (·.shares) fun _ => rfl
  countedShares := placeCodec (fun a => withReward { sampleReward with shares := a })
    (·.rewardManifest.shares) fun _ => rfl
  entitlements := placeCodec (fun a => withReward { sampleReward with entitlements := a })
    (·.rewardManifest.entitlements) fun _ => rfl
  foundBlock := placeCodec (fun a => { honestBundle with foundBlock := a }) (·.foundBlock) fun _ => rfl
  priorBalances := placeCodec (fun a => { honestBundle with priorBalances := a })
    (·.priorBalances) fun _ => rfl
  payoutPolicy := placeCodec (fun a => { honestBundle with payoutPolicy := a })
    (·.payoutPolicy) fun _ => rfl
  attestation := placeCodec (fun a => { honestBundle with ledgerWindowAttestation := a })
    (·.ledgerWindowAttestation) fun _ => rfl
  accounts := placeCodec
    (fun a => { honestBundle with payoutPolicyManifest := { samplePayouts with accounts := a } })
    (·.payoutPolicyManifest.accounts) fun _ => rfl
  payoutPolicyManifest := placeCodec (fun a => { honestBundle with payoutPolicyManifest := a })
    (·.payoutPolicyManifest) fun _ => rfl
  settlementModeDecision := placeCodec (fun a => { honestBundle with settlementModeDecision := a })
    (·.settlementModeDecision) fun _ => rfl
  fanoutFeePolicy := placeCodec (fun a => { honestBundle with ctvFanoutFeePolicy := a })
    (·.ctvFanoutFeePolicy) fun _ => rfl
  fanoutManifestSet := placeCodec (fun a => { honestBundle with ctvFanoutManifestSet := a })
    (·.ctvFanoutManifestSet) fun _ => rfl
  signedManifest := placeCodec (fun a => { honestBundle with signedCoinbaseManifest := a })
    (·.signedCoinbaseManifest) fun _ => rfl

def sampleLandingContext : LandingContext AuditBundle :=
  { sampleContext with
    json := sampleCodecs
    sharesBytes := fun shares => shares.map fun share => UInt8.ofNat share.shareSeq.val }

def honestParts : ClaimParts := ⟨honestBundle.intoParts.1, honestBundle.shares⟩

def honestWindow : WindowRef where
  anchorMs := 1
  priorBalancesDigest := priorBalancesDigest sampleContext.toCrypto []
  shares := some {
    firstShareSeq := 1
    lastShareSeq := 3
    shareCount := 3
    snapshotSha256 := sampleContext.sha256 [1, 2, 3] }
  cut := none

theorem honestParts_land :
    ∃ landing, landingFromParts sampleLandingContext honestParts honestWindow none emptyDigestHex =
        .ok landing ∧
      ∃ row, snapshotRow landing.snapshot = .ok row := by
  obtain ⟨report, hreport⟩ := honestBundle_accepted
  have hverified : verifyAuditParts sampleLandingContext.toAuditContext honestParts.body
      honestParts.shares emptyDigestHex = .ok report := hreport
  have hok : (landingFromParts sampleLandingContext honestParts honestWindow none emptyDigestHex >>=
      fun landing => snapshotRow landing.snapshot).isOk = true := by
    rw [landingFromParts, hverified]
    rfl
  obtain ⟨row, hrow⟩ := exists_of_isOk hok
  obtain ⟨landing, hlanding, hrow⟩ := bind_eq_ok.mp hrow
  exact ⟨landing, hlanding, row, hrow⟩

theorem materializeAuditRow_honestParts :
    ∃ landing row reader, landingFromParts sampleLandingContext honestParts honestWindow none
        emptyDigestHex = .ok landing ∧ snapshotRow landing.snapshot = .ok row ∧
      (materializeAuditRow sampleLandingContext reader
        { auditBundle := some landing.body
          auditBundleSha256 := some (sampleContext.sha256Hex
            (canonicalAuditBundleBytesFromParts sampleContext honestParts.body honestParts.shares))
          shareSnapshotSha256 := some landing.snapshot.digest } true).map Prod.fst =
        .ok (some
          (canonicalAuditBundleBytesFromParts sampleContext honestParts.body honestParts.shares)) := by
  obtain ⟨landing, hlanding, row, hrow⟩ := honestParts_land
  refine ⟨landing, row, ⟨fun _ => some row, fun _ _ _ _ => .ok honestParts.shares⟩, hlanding, hrow, ?_⟩
  exact materializeAuditRow_landed sampleLandingContext _ honestParts honestWindow none
    emptyDigestHex landing row hlanding hrow rfl fun _ => rfl

end QbitPrism
