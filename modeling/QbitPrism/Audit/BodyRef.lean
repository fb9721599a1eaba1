import Mathlib
import QbitPrism.Audit.Landing

/-!
# Legacy audit envelopes

The storage envelopes of earlier releases (`audit_body_ref.rs`) keep a bundle's shares in parts:
whole segment files, ranges and leading ranges of segment files, and inline shares. Resolving an
envelope selects each part's shares and puts the bundle together again.
-/
namespace QbitPrism
open MachineInt Checked Fields List

namespace BodyRef

def auditBodyRefSchema : String := "qbit.prism.audit-body-ref.v1"
def auditBundleV2Schema : String := "qbit.prism.audit-bundle.v2"
def auditShareSegmentSchema : String := "qbit.prism.audit-share-segment.v1"
def auditWindowCompletenessProofSchema : String := "qbit.prism.window-completeness-proof.v1"

inductive AuditBodyRefError where
  | io (message : String)
  | json (message : String)
  | invalid (message : String)
  | hashMismatch (expected actual : String)
  deriving DecidableEq

inductive SharePart where
  | segment (firstShareSeq lastShareSeq : U64) (shareCount : ℕ) (sha256 bodyUri : String)
  | segmentRange (segmentFirstShareSeq segmentLastShareSeq : Option U64)
      (firstShareSeq lastShareSeq : U64) (shareCount : ℕ) (rangeSha256 bodyUri : String)
  | segmentPrefix (firstShareSeq lastShareSeq : U64) (shareCount : ℕ) (prefixSha256 bodyUri : String)
  | inline (firstShareSeq lastShareSeq : U64) (shareCount : ℕ) (shares : List AcceptedShare)

structure AuditShareSegment where
  schema : String
  firstShareSeq : U64
  lastShareSeq : U64
  shareCount : ℕ
  shares : List AcceptedShare

structure AuditBodyRef (L : Type) where
  schema : String
  auditBundleSha256 : String
  shareCount : ℕ
  bundleWithoutShares : Value L
  shareParts : List SharePart

structure AuditWindowCompletenessProof where
  schema : String
  firstShareSeq : U64
  lastShareSeq : U64
  shareCount : ℕ
  shareSliceDigestHex : Option String
  sharePartsDigestHex : Option String
  shareParts : List SharePart

structure AuditBundleV2 (L : Type) where
  schema : String
  auditBundleSha256 : String
  shareCount : ℕ
  bundleWithoutShares : Value L
  shareWindowProof : AuditWindowCompletenessProof

/-- The hash and JSON functions, and what the file at each path holds. -/
structure BodyRefContext (L : Type) extends AuditContext where
  json : AuditCodecs L
  isNull : L → Bool
  readFile : String → Except String (List UInt8)
  segmentFromSlice : List UInt8 → Except String AuditShareSegment
  segmentToVec : AuditShareSegment → List UInt8
  segmentPythonJson : AuditShareSegment → List UInt8
  sharePartsPythonJson : List SharePart → List UInt8

def validateContiguousShares (label : String) : List AcceptedShare → Except AuditBodyRefError Unit
  | previous :: next :: rest => do
    -- The addition is unchecked: at the top of `u64` it wraps.
    require (Unsigned.wrapping (previous.shareSeq.val + 1) = next.shareSeq)
      (.invalid s!"{label} has non-contiguous share_seq values: {previous.shareSeq.val} then {next.shareSeq.val}")
    validateContiguousShares label (next :: rest)
  | _ => pure ()

def validatePartShares (shares : List AcceptedShare) (firstShareSeq lastShareSeq : U64) (shareCount : ℕ)
    (label : String) : Except AuditBodyRefError Unit := do
  require (shares.length = shareCount)
    (.invalid s!"{label} expected {shareCount} shares, found {shares.length}")
  require (shares.head?.map (·.shareSeq) = some firstShareSeq ∧
      shares.getLast?.map (·.shareSeq) = some lastShareSeq)
    (.invalid s!"{label} share_seq range does not match metadata")
  validateContiguousShares label shares

def inRange (firstShareSeq lastShareSeq : U64) (share : AcceptedShare) : Bool :=
  firstShareSeq.val ≤ share.shareSeq.val && share.shareSeq.val ≤ lastShareSeq.val

def selectShareSegmentRange (segmentShares : List AcceptedShare) (firstShareSeq lastShareSeq : U64)
    (shareCount : ℕ) (label : String) : Except AuditBodyRefError (List AcceptedShare) := do
  let selected := segmentShares.filter (inRange firstShareSeq lastShareSeq)
  validatePartShares selected firstShareSeq lastShareSeq shareCount label
  pure selected

def validateShareSegmentSchema (segment : AuditShareSegment) (segmentPath : String) :
    Except AuditBodyRefError Unit :=
  require (segment.schema = auditShareSegmentSchema)
    (.invalid s!"unsupported share segment schema {segment.schema} at {segmentPath}")

def validateShareSegmentMetadata (segment : AuditShareSegment) (firstShareSeq lastShareSeq : U64)
    (shareCount : ℕ) (segmentPath : String) : Except AuditBodyRefError Unit := do
  validateShareSegmentSchema segment segmentPath
  require (segment.firstShareSeq = firstShareSeq ∧ segment.lastShareSeq = lastShareSeq ∧
      segment.shareCount = shareCount)
    (.invalid s!"share segment metadata mismatch at {segmentPath}")
  validatePartShares segment.shares firstShareSeq lastShareSeq shareCount "share segment"

def joinPath (baseDir path : String) : String :=
  if baseDir = "" then path
  else if baseDir.toList.getLast? = some '/' then baseDir ++ path
  else baseDir ++ "/" ++ path

/-- The local path of a segment; a store this build does not read is refused. -/
def resolveBodyUri (bodyUri : String) (baseDir : Option String) : Except AuditBodyRefError String := do
  let path ← match "file://".toList.isPrefixOf? bodyUri.toList with
    | some path =>
      if "localhost/".toList.isPrefixOf path then
        pure (String.ofList (path.drop "localhost".length))
      else pure (String.ofList path)
    | none =>
      if bodyUri.toList.tails.any (fun rest => "://".toList.isPrefixOf rest) then
        .error (.invalid s!"unsupported share segment URI scheme: {bodyUri}")
      else pure bodyUri
  if path.toList.head? = some '/' then pure path
  else
    match baseDir with
    | some baseDir => pure (joinPath baseDir path)
    | none => pure path

section Parts
variable {L : Type} (ctx : BodyRefContext L)

def verifyShareSegmentSha256 (firstShareSeq lastShareSeq : U64) (shares : List AcceptedShare)
    (expectedSha256 : String) : Except AuditBodyRefError Unit :=
  let segment : AuditShareSegment :=
    { schema := auditShareSegmentSchema, firstShareSeq, lastShareSeq, shareCount := shares.length, shares }
  let actualSha256 := ctx.sha256Hex (ctx.segmentToVec segment)
  require (actualSha256 = expectedSha256.toLower ∨
      ctx.sha256Hex (ctx.segmentPythonJson segment) = expectedSha256.toLower)
    (.hashMismatch expectedSha256.toLower actualSha256)

def partShares (baseDir : Option String) : SharePart → Except AuditBodyRefError (List AcceptedShare)
  | .segment firstShareSeq lastShareSeq shareCount sha256 bodyUri => do
    let segmentPath ← resolveBodyUri bodyUri baseDir
    let segmentBytes ← (ctx.readFile segmentPath).mapError .io
    let actualSha256 := ctx.sha256Hex segmentBytes
    require (actualSha256 = sha256.toLower) (.hashMismatch sha256.toLower actualSha256)
    let segment ← (ctx.segmentFromSlice segmentBytes).mapError .json
    validateShareSegmentMetadata segment firstShareSeq lastShareSeq shareCount segmentPath
    pure segment.shares
  | .segmentRange _ _ firstShareSeq lastShareSeq shareCount rangeSha256 bodyUri => do
    let segmentPath ← resolveBodyUri bodyUri baseDir
    let segmentBytes ← (ctx.readFile segmentPath).mapError .io
    let segment ← (ctx.segmentFromSlice segmentBytes).mapError .json
    validateShareSegmentSchema segment segmentPath
    let selected ← selectShareSegmentRange segment.shares firstShareSeq lastShareSeq shareCount
      "share segment range"
    verifyShareSegmentSha256 ctx firstShareSeq lastShareSeq selected rangeSha256
    pure selected
  | .segmentPrefix firstShareSeq lastShareSeq shareCount prefixSha256 bodyUri => do
    let segmentPath ← resolveBodyUri bodyUri baseDir
    let segmentBytes ← (ctx.readFile segmentPath).mapError .io
    let segment ← (ctx.segmentFromSlice segmentBytes).mapError .json
    validateShareSegmentSchema segment segmentPath
    require (segment.firstShareSeq = firstShareSeq)
      (.invalid s!"share segment prefix first_share_seq mismatch at {segmentPath}")
    let selected ← selectShareSegmentRange segment.shares firstShareSeq lastShareSeq shareCount
      "share segment prefix"
    verifyShareSegmentSha256 ctx firstShareSeq lastShareSeq selected prefixSha256
    pure selected
  | .inline firstShareSeq lastShareSeq shareCount shares => do
    validatePartShares shares firstShareSeq lastShareSeq shareCount "inline share part"
    pure shares

def appendContiguous (target incoming : List AcceptedShare) :
    Except AuditBodyRefError (List AcceptedShare) :=
  match target.getLast?, incoming.head? with
  | some previous, some next => do
    require (Unsigned.wrapping (previous.shareSeq.val + 1) = next.shareSeq)
      (.invalid s!"share parts are not contiguous: {previous.shareSeq.val} then {next.shareSeq.val}")
    pure (target ++ incoming)
  | _, _ => pure (target ++ incoming)

def appendSharePart (baseDir : Option String) (shares : List AcceptedShare) (part : SharePart) :
    Except AuditBodyRefError (List AcceptedShare) := do
  let incoming ← partShares ctx baseDir part
  appendContiguous shares incoming

/-- A window with a cut is refused: these envelopes predate dual-writer windows. -/
def refuseWindowCut (bundleWithoutShares : Value L) (label : String) : Except AuditBodyRefError Unit :=
  let member (value : Value L) (key : String) : Option (Value L) :=
    match value with
    | .object fields => Object.get? fields key
    | .leaf _ => none
  let present (value : Value L) : Bool :=
    match value with
    | .object _ => true
    | .leaf leaf => !ctx.isNull leaf
  require (¬((member bundleWithoutShares "reward_manifest").bind (fun manifest => member manifest "cut")).any
      present = true)
    (.invalid s!"{label} predates dual-writer window cuts: a bundle whose reward manifest has a cut is only valid as a flat audit bundle")

def isHexDigit (c : Char) : Bool :=
  ('0' ≤ c && c ≤ '9') || ('a' ≤ c && c ≤ 'f') || ('A' ≤ c && c ≤ 'F')

def requireSha256Text (expectedSha256 : String) : Except AuditBodyRefError Unit :=
  require (expectedSha256.length = 64 ∧ expectedSha256.toList.all isHexDigit = true)
    (.invalid "audit_bundle_sha256 must be 64 hex characters")

def sharePartsDigestHex (shareParts : List SharePart) : String :=
  ctx.sha256Hex (ctx.sharePartsPythonJson shareParts)

def bundleValueWithShares (bundleWithoutShares : Value L) (shares : List AcceptedShare) :
    Except AuditBodyRefError (Object L) :=
  match bundleWithoutShares with
  | .object fields => pure (Object.insert fields "shares" (ctx.json.acceptedShares.toValue shares))
  | .leaf _ => .error (.invalid "bundle_without_shares must be an object")

def requireBundleSha256 (bundle : AuditBundle) (expectedSha256 : String) : Except AuditBodyRefError Unit :=
  let actualSha256 := ctx.sha256Hex (ctx.auditBundleBytes bundle)
  require (actualSha256 = expectedSha256) (.hashMismatch expectedSha256 actualSha256)

def resolveAuditBodyRef (bodyRef : AuditBodyRef L) (baseDir : Option String) :
    Except AuditBodyRefError AuditBundle := do
  require (bodyRef.schema = auditBodyRefSchema)
    (.invalid s!"unsupported body-ref schema {bodyRef.schema}")
  refuseWindowCut ctx bodyRef.bundleWithoutShares "audit-body-ref.v1"
  let expectedSha256 := bodyRef.auditBundleSha256.toLower
  requireSha256Text expectedSha256
  let shares ← bodyRef.shareParts.foldlM (appendSharePart ctx baseDir) []
  require (shares.length = bodyRef.shareCount)
    (.invalid s!"expected {bodyRef.shareCount} shares, reconstructed {shares.length}")
  validateContiguousShares "audit body ref" shares
  let bundleValue ← bundleValueWithShares ctx bodyRef.bundleWithoutShares shares
  let bundle ← (AuditBundle.fromObject ctx.json bundleValue).mapError .json
  requireBundleSha256 ctx bundle expectedSha256
  pure bundle

def resolveAuditBundleV2 (bundleV2 : AuditBundleV2 L) (baseDir : Option String) :
    Except AuditBodyRefError AuditBundle := do
  require (bundleV2.schema = auditBundleV2Schema)
    (.invalid s!"unsupported audit-bundle.v2 schema {bundleV2.schema}")
  refuseWindowCut ctx bundleV2.bundleWithoutShares "audit-bundle.v2"
  let proof := bundleV2.shareWindowProof
  require (proof.schema = auditWindowCompletenessProofSchema)
    (.invalid s!"unsupported window proof schema {proof.schema}")
  let expectedSha256 := bundleV2.auditBundleSha256.toLower
  requireSha256Text expectedSha256
  require (∀ expectedDigest ∈ proof.sharePartsDigestHex,
      eqIgnoreAsciiCase expectedDigest (sharePartsDigestHex ctx proof.shareParts))
    (.invalid "window proof share_parts_digest_hex mismatch")
  let shares ← proof.shareParts.foldlM (appendSharePart ctx baseDir) []
  require (shares.length = bundleV2.shareCount ∧ shares.length = proof.shareCount)
    (.invalid s!"expected {bundleV2.shareCount} shares, reconstructed {shares.length}")
  validateContiguousShares "audit-bundle.v2" shares
  require (shares.head?.map (·.shareSeq) = some proof.firstShareSeq ∧
      shares.getLast?.map (·.shareSeq) = some proof.lastShareSeq)
    (.invalid "window proof share_seq range does not match reconstructed shares")
  let bundleValue ← bundleValueWithShares ctx bundleV2.bundleWithoutShares shares
  let bundle ← (AuditBundle.fromObject ctx.json bundleValue).mapError .json
  let expectedRewardManifest ← (buildPrismRewardManifestWithCut ctx.toCrypto bundle.shares
    bundle.foundBlock bundle.rewardManifest.cut).mapError
      fun _ => .invalid "audit-bundle.v2 reward manifest reconstruction failed"
  require (∀ shareSliceDigestHex ∈ proof.shareSliceDigestHex,
      eqIgnoreAsciiCase shareSliceDigestHex expectedRewardManifest.shareSliceDigestHex)
    (.invalid "window proof share_slice_digest_hex mismatch")
  require (expectedRewardManifest = bundle.rewardManifest)
    (.invalid "audit-bundle.v2 reward_manifest mismatch")
  requireBundleSha256 ctx bundle expectedSha256
  pure bundle

end Parts

/-- Either kind of envelope, as `parse_audit_bundle_value` tells them apart. -/
inductive Envelope (L : Type) where
  | bodyRef (bodyRef : AuditBodyRef L)
  | bundleV2 (bundleV2 : AuditBundleV2 L)

section Spec
variable {L : Type}

def Envelope.shareParts : Envelope L → List SharePart
  | .bodyRef ref => ref.shareParts
  | .bundleV2 v2 => v2.shareWindowProof.shareParts

def Envelope.shareCount : Envelope L → ℕ
  | .bodyRef ref => ref.shareCount
  | .bundleV2 v2 => v2.shareCount

def SharePart.firstShareSeq : SharePart → U64
  | .segment first _ _ _ _ => first
  | .segmentRange _ _ first _ _ _ _ => first
  | .segmentPrefix first _ _ _ _ => first
  | .inline first _ _ _ => first

def SharePart.lastShareSeq : SharePart → U64
  | .segment _ last _ _ _ => last
  | .segmentRange _ _ _ last _ _ _ => last
  | .segmentPrefix _ last _ _ _ => last
  | .inline _ last _ _ => last

variable (ctx : BodyRefContext L) (baseDir : Option String)

def resolve : Envelope L → Except AuditBodyRefError AuditBundle
  | .bodyRef ref => resolveAuditBodyRef ctx ref baseDir
  | .bundleV2 v2 => resolveAuditBundleV2 ctx v2 baseDir

def NamesSegment (bodyUri : String) (segment : AuditShareSegment) : Prop :=
  ∃ path bytes, resolveBodyUri bodyUri baseDir = .ok path ∧ ctx.readFile path = .ok bytes ∧
    ctx.segmentFromSlice bytes = .ok segment

/-- What each kind of part takes from its segment, or brings itself. -/
inductive Selects : SharePart → List AcceptedShare → Prop where
  | segment {first last : U64} {count : ℕ} {sha256 bodyUri : String} {segment : AuditShareSegment}
      (hsegment : NamesSegment ctx baseDir bodyUri segment) :
      Selects (.segment first last count sha256 bodyUri) segment.shares
  | segmentRange {segmentFirst segmentLast : Option U64} {first last : U64} {count : ℕ}
      {sha256 bodyUri : String} {segment : AuditShareSegment}
      (hsegment : NamesSegment ctx baseDir bodyUri segment) :
      Selects (.segmentRange segmentFirst segmentLast first last count sha256 bodyUri)
        (segment.shares.filter (inRange first last))
  | segmentPrefix {first last : U64} {count : ℕ} {sha256 bodyUri : String} {segment : AuditShareSegment}
      (hsegment : NamesSegment ctx baseDir bodyUri segment) :
      Selects (.segmentPrefix first last count sha256 bodyUri)
        (segment.shares.filter (inRange first last))
  | inline {first last : U64} {count : ℕ} {shares : List AcceptedShare} :
      Selects (.inline first last count shares) shares

def Bounded (part : SharePart) (slice : List AcceptedShare) : Prop :=
  slice.head?.map (·.shareSeq) = some part.firstShareSeq ∧
    slice.getLast?.map (·.shareSeq) = some part.lastShareSeq

/-- What a window proof says of the bundle it comes with. -/
def Envelope.Proved : Envelope L → AuditBundle → Prop
  | .bodyRef _, _ => True
  | .bundleV2 v2, bundle =>
    bundle.shares.head?.map (·.shareSeq) = some v2.shareWindowProof.firstShareSeq ∧
    bundle.shares.getLast?.map (·.shareSeq) = some v2.shareWindowProof.lastShareSeq ∧
    buildPrismRewardManifestWithCut ctx.toCrypto bundle.shares bundle.foundBlock
      bundle.rewardManifest.cut = .ok bundle.rewardManifest

structure ExactlyItsParts (envelope : Envelope L) (bundle : AuditBundle) : Prop where
  parts : ∃ slices, List.Forall₂ (fun part slice => Selects ctx baseDir part slice ∧ Bounded part slice)
    envelope.shareParts slices ∧ bundle.shares = slices.flatten
  contiguous : bundle.shares.IsChain fun a b => b.shareSeq.val = a.shareSeq.val + 1
  distinct : (bundle.shares.map (·.shareSeq)).Nodup
  count : bundle.shares.length = envelope.shareCount
  proved : envelope.Proved ctx bundle

/-- Of the shares the parts select, only the last may have the highest sequence number. -/
def EndsAtTop (envelope : Envelope L) : Prop :=
  ∀ slices, List.Forall₂ (Selects ctx baseDir) envelope.shareParts slices →
    ∀ share ∈ slices.flatten.dropLast, share.shareSeq.val ≠ 2 ^ 64 - 1

end Spec

section Runs
variable {shares : List AcceptedShare}

/-- The checks compare each share with the wrapped successor of the one before it. -/
def Follows (a b : AcceptedShare) : Prop := Unsigned.wrapping (a.shareSeq.val + 1) = b.shareSeq

theorem validateContiguousShares_eq_ok {label : String}
    (h : validateContiguousShares label shares = .ok ()) : shares.IsChain Follows := by
  induction shares with
  | nil => exact .nil
  | cons a rest ih =>
    cases rest with
    | nil => exact .singleton a
    | cons b rest =>
      simp only [validateContiguousShares, bind_eq_ok, require_eq_ok] at h
      obtain ⟨-, hnext, hrest⟩ := h
      exact .cons_cons hnext (ih hrest)

theorem Follows.succ {a b : AcceptedShare} (h : Follows a b) (htop : a.shareSeq.val ≠ 2 ^ 64 - 1) :
    b.shareSeq.val = a.shareSeq.val + 1 := by
  have hlt := a.shareSeq.isLt
  rw [← h, Unsigned.wrapping_val (by omega)]

theorem exists_next {R : AcceptedShare → AcceptedShare → Prop} (h : shares.IsChain R)
    {a : AcceptedShare} (ha : a ∈ shares.dropLast) : ∃ b, R a b := by
  induction h with
  | nil | singleton => cases ha
  | cons_cons hR _ ih =>
    rcases mem_cons.mp ha with rfl | ha
    · exact ⟨_, hR⟩
    · exact ih ha

theorem succ_of_follows (h : shares.IsChain Follows)
    (htop : ∀ share ∈ shares.dropLast, share.shareSeq.val ≠ 2 ^ 64 - 1) :
    shares.IsChain fun a b => b.shareSeq.val = a.shareSeq.val + 1 := by
  induction h with
  | nil => exact .nil
  | singleton x => exact .singleton x
  | cons_cons hR _ ih =>
    refine .cons_cons (hR.succ (htop _ mem_cons_self)) (ih fun share hshare => ?_)
    exact htop share (mem_cons_of_mem _ hshare)

theorem nodup_of_succ (h : shares.IsChain fun a b => b.shareSeq.val = a.shareSeq.val + 1) :
    (shares.map (·.shareSeq)).Nodup := by
  have hlt : shares.Pairwise fun a b => a.shareSeq.val < b.shareSeq.val := by
    have : IsTrans AcceptedShare fun a b => a.shareSeq.val < b.shareSeq.val := ⟨fun _ _ _ => Nat.lt_trans⟩
    exact isChain_iff_pairwise.mp (h.imp fun a b hab => by omega)
  refine pairwise_map.mpr (hlt.imp fun {a b} hab heq => ?_)
  rw [heq] at hab
  exact Nat.lt_irrefl _ hab

end Runs

section Resolve
variable {L : Type} {ctx : BodyRefContext L} {baseDir : Option String}

theorem validatePartShares_eq_ok {shares : List AcceptedShare} {first last : U64} {count : ℕ}
    {label : String} (h : validatePartShares shares first last count label = .ok ()) :
    shares.head?.map (·.shareSeq) = some first ∧ shares.getLast?.map (·.shareSeq) = some last := by
  simp only [validatePartShares, bind_eq_ok, require_eq_ok] at h
  obtain ⟨-, -, -, hbounds, -⟩ := h
  exact hbounds

theorem selectShareSegmentRange_eq_ok {shares selected : List AcceptedShare} {first last : U64}
    {count : ℕ} {label : String} (h : selectShareSegmentRange shares first last count label = .ok selected) :
    selected = shares.filter (inRange first last) ∧
      selected.head?.map (·.shareSeq) = some first ∧ selected.getLast?.map (·.shareSeq) = some last := by
  simp only [selectShareSegmentRange, bind_eq_ok, pure_eq_ok] at h
  obtain ⟨⟨⟩, hvalid, rfl⟩ := h
  exact ⟨rfl, validatePartShares_eq_ok hvalid⟩

theorem partShares_eq_ok {part : SharePart} {slice : List AcceptedShare}
    (h : partShares ctx baseDir part = .ok slice) : Selects ctx baseDir part slice ∧ Bounded part slice := by
  cases part with
  | segment first last count sha256 bodyUri =>
    simp only [partShares, bind_eq_ok, pure_eq_ok, mapError_eq_ok, validateShareSegmentMetadata] at h
    obtain ⟨path, hpath, bytes, hbytes, -, -, segment, hsegment, ⟨⟩, ⟨-, -, -, -, hvalid⟩, rfl⟩ := h
    exact ⟨.segment ⟨path, bytes, hpath, hbytes, hsegment⟩, validatePartShares_eq_ok hvalid⟩
  | segmentRange segmentFirst segmentLast first last count sha256 bodyUri =>
    simp only [partShares, bind_eq_ok, pure_eq_ok, mapError_eq_ok] at h
    obtain ⟨path, hpath, bytes, hbytes, segment, hsegment, -, -, selected, hselected, -, -, rfl⟩ := h
    obtain ⟨rfl, hbounds⟩ := selectShareSegmentRange_eq_ok hselected
    exact ⟨.segmentRange ⟨path, bytes, hpath, hbytes, hsegment⟩, hbounds⟩
  | segmentPrefix first last count sha256 bodyUri =>
    simp only [partShares, bind_eq_ok, pure_eq_ok, mapError_eq_ok] at h
    obtain ⟨path, hpath, bytes, hbytes, segment, hsegment, -, -, -, -, selected, hselected, -, -, rfl⟩ := h
    obtain ⟨rfl, hbounds⟩ := selectShareSegmentRange_eq_ok hselected
    exact ⟨.segmentPrefix ⟨path, bytes, hpath, hbytes, hsegment⟩, hbounds⟩
  | inline first last count shares =>
    simp only [partShares, bind_eq_ok, pure_eq_ok] at h
    obtain ⟨⟨⟩, hvalid, rfl⟩ := h
    exact ⟨.inline, validatePartShares_eq_ok hvalid⟩

theorem NamesSegment.unique {bodyUri : String} {segment segment' : AuditShareSegment}
    (h : NamesSegment ctx baseDir bodyUri segment) (h' : NamesSegment ctx baseDir bodyUri segment') :
    segment = segment' := by
  obtain ⟨path, bytes, hpath, hbytes, hsegment⟩ := h
  obtain ⟨path', bytes', hpath', hbytes', hsegment'⟩ := h'
  cases hpath.symm.trans hpath'
  cases hbytes.symm.trans hbytes'
  exact Except.ok.inj (hsegment.symm.trans hsegment')

theorem Selects.unique {part : SharePart} {slice slice' : List AcceptedShare}
    (h : Selects ctx baseDir part slice) (h' : Selects ctx baseDir part slice') : slice = slice' := by
  cases h with
  | segment hsegment => cases h' with | segment hsegment' => rw [hsegment.unique hsegment']
  | segmentRange hsegment => cases h' with | segmentRange hsegment' => rw [hsegment.unique hsegment']
  | segmentPrefix hsegment => cases h' with | segmentPrefix hsegment' => rw [hsegment.unique hsegment']
  | inline => cases h'; rfl

theorem forall₂_selects_unique {parts : List SharePart} {slices slices' : List (List AcceptedShare)}
    (h : List.Forall₂ (Selects ctx baseDir) parts slices)
    (h' : List.Forall₂ (Selects ctx baseDir) parts slices') : slices = slices' := by
  induction h generalizing slices' with
  | nil => cases h'; rfl
  | cons hhead _ ih =>
    cases h' with
    | cons hhead' htail' => rw [hhead.unique hhead', ih htail']

theorem appendContiguous_eq_ok {target incoming shares : List AcceptedShare}
    (h : appendContiguous target incoming = .ok shares) : shares = target ++ incoming := by
  unfold appendContiguous at h
  split at h
  · simp only [bind_eq_ok, pure_eq_ok] at h
    obtain ⟨-, -, rfl⟩ := h
    rfl
  · exact (pure_eq_ok.mp h).symm

theorem foldlM_appendSharePart_eq_ok {parts : List SharePart} {shares : List AcceptedShare}
    (h : parts.foldlM (appendSharePart ctx baseDir) [] = .ok shares) :
    ∃ slices, List.Forall₂ (fun part slice => Selects ctx baseDir part slice ∧ Bounded part slice)
      parts slices ∧ shares = slices.flatten := by
  refine foldlM_ok_induction (fun done acc => ∃ slices, List.Forall₂
    (fun part slice => Selects ctx baseDir part slice ∧ Bounded part slice) done slices ∧
      acc = slices.flatten) ⟨[], .nil, rfl⟩ ?_ h
  rintro done part acc acc' ⟨slices, hslices, rfl⟩ hstep
  simp only [appendSharePart, bind_eq_ok] at hstep
  obtain ⟨incoming, hpart, happend⟩ := hstep
  refine ⟨slices ++ [incoming], rel_append hslices (.cons (partShares_eq_ok hpart) .nil), ?_⟩
  rw [appendContiguous_eq_ok happend, flatten_append, flatten_singleton]

theorem shares_of_fromObject {value : Value L} {shares : List AcceptedShare} {o : Object L}
    {bundle : AuditBundle} (hvalue : bundleValueWithShares ctx value shares = .ok o)
    (h : AuditBundle.fromObject ctx.json o = .ok bundle) : bundle.shares = shares := by
  cases value with
  | leaf l => cases hvalue
  | object fields =>
    cases hvalue
    have hfield : ctx.json.acceptedShares.field "shares"
        (Object.insert fields "shares" (ctx.json.acceptedShares.toValue shares)) = .ok shares :=
      Codec.field_of_get? (Object.get?_insert_self _ _ _)
    simp only [AuditBundle.fromObject, bind_eq_ok, pure_eq_ok, hfield, Except.ok.injEq] at h
    obtain ⟨_, -, _, rfl, h⟩ := h
    obtain ⟨_, -, _, -, _, -, _, -, _, -, _, -, _, -, _, -, _, -, _, -, _, -, _, -, _, -, _, -, rfl⟩ := h
    rfl

/-- What every resolved envelope establishes; its run is one of wrapped successors. -/
structure Resolved (ctx : BodyRefContext L) (baseDir : Option String) (envelope : Envelope L)
    (bundle : AuditBundle) : Prop where
  parts : ∃ slices, List.Forall₂ (fun part slice => Selects ctx baseDir part slice ∧ Bounded part slice)
    envelope.shareParts slices ∧ bundle.shares = slices.flatten
  follows : bundle.shares.IsChain Follows
  count : bundle.shares.length = envelope.shareCount
  proved : envelope.Proved ctx bundle

theorem resolve_eq_ok {envelope : Envelope L} {bundle : AuditBundle}
    (h : resolve ctx baseDir envelope = .ok bundle) : Resolved ctx baseDir envelope bundle := by
  cases envelope with
  | bodyRef ref =>
    simp only [resolve, resolveAuditBodyRef, bind_eq_ok, pure_eq_ok, mapError_eq_ok, require_eq_ok] at h
    obtain ⟨-, -, -, -, -, -, shares, hshares, -, hcount, ⟨⟩, hrun, o, hvalue, _, hbundle, -, -, rfl⟩ := h
    cases shares_of_fromObject hvalue hbundle
    exact ⟨foldlM_appendSharePart_eq_ok hshares, validateContiguousShares_eq_ok hrun, hcount, trivial⟩
  | bundleV2 v2 =>
    simp only [resolve, resolveAuditBundleV2, bind_eq_ok, pure_eq_ok, mapError_eq_ok, require_eq_ok] at h
    obtain ⟨-, -, -, -, -, -, -, -, -, -, shares, hshares, -, hcount, ⟨⟩, hrun, -, hbounds, o, hvalue, _,
      hbundle, manifest, hmanifest, -, -, -, rfl, -, -, rfl⟩ := h
    cases shares_of_fromObject hvalue hbundle
    exact ⟨foldlM_appendSharePart_eq_ok hshares, validateContiguousShares_eq_ok hrun, hcount.1,
      hbounds.1, hbounds.2, hmanifest⟩

/-- A resolved envelope is exactly its parts if and only if no run steps over the top of `u64`. -/
theorem resolve_exactly_parts_iff {envelope : Envelope L} {bundle : AuditBundle}
    (h : resolve ctx baseDir envelope = .ok bundle) :
    ExactlyItsParts ctx baseDir envelope bundle ↔ EndsAtTop ctx baseDir envelope := by
  obtain ⟨⟨slices, hslices, hflatten⟩, hfollows, hcount, hproved⟩ := resolve_eq_ok h
  have hselects : List.Forall₂ (Selects ctx baseDir) envelope.shareParts slices :=
    hslices.imp fun _ _ hslice => hslice.1
  constructor
  · intro hexact other hother share hshare htop
    rw [forall₂_selects_unique hother hselects, ← hflatten] at hshare
    obtain ⟨next, hnext⟩ := exists_next hexact.contiguous hshare
    have hlt := next.shareSeq.isLt
    omega
  · intro htop
    have hsucc := succ_of_follows hfollows (hflatten ▸ htop slices hselects)
    exact ⟨⟨slices, hslices, hflatten⟩, hsucc, nodup_of_succ hsucc, hcount, hproved⟩

end Resolve

def sampleSegment : AuditShareSegment where
  schema := auditShareSegmentSchema
  firstShareSeq := 0
  lastShareSeq := 2
  shareCount := 3
  shares := [sampleShare 0 carol 2, sampleShare 1 alice 5, sampleShare 2 bob 3]

/-- One segment file, at `/audits/a.json`. -/
def sampleBodyRefContext : BodyRefContext AuditBundle :=
  { sampleContext with
    json := sampleCodecs
    isNull := fun _ => false
    readFile := fun path => if path = "/audits/a.json" then .ok [1] else .error "no such file"
    segmentFromSlice := fun bytes => if bytes = [1] then .ok sampleSegment else .error "expected value"
    segmentToVec := fun segment => segment.shares.map fun share => UInt8.ofNat share.shareSeq.val
    segmentPythonJson := fun _ => []
    sharePartsPythonJson := fun _ => [] }

def sampleEnvelope (shareCount : ℕ) (shares : List AcceptedShare) (shareParts : List SharePart) :
    Envelope AuditBundle :=
  .bodyRef {
    schema := auditBodyRefSchema
    auditBundleSha256 := sampleContext.sha256Hex
      (canonicalAuditBundleBytesFromParts sampleContext honestParts.body shares)
    shareCount := shareCount
    bundleWithoutShares := .object (honestParts.body.toObject sampleCodecs)
    shareParts := shareParts }

def rangeAndInline : List SharePart :=
  [.segmentRange none none 1 2 2 (sampleContext.sha256Hex [1, 2]) "a.json",
    .inline 3 3 1 [sampleShare 3 carol 2]]

theorem resolve_exactly_parts_iff_range : ∃ bundle,
    resolve sampleBodyRefContext (some "/audits") (sampleEnvelope 3 honestParts.shares rangeAndInline) =
        .ok bundle ∧
      ExactlyItsParts sampleBodyRefContext (some "/audits")
        (sampleEnvelope 3 honestParts.shares rangeAndInline) bundle := by
  obtain ⟨bundle, hbundle⟩ := exists_of_isOk (x := resolve sampleBodyRefContext (some "/audits")
    (sampleEnvelope 3 honestParts.shares rangeAndInline)) (by decide +kernel)
  refine ⟨bundle, hbundle, (resolve_exactly_parts_iff hbundle).mpr fun slices hslices => ?_⟩
  have hsegment : NamesSegment sampleBodyRefContext (some "/audits") "a.json" sampleSegment :=
    ⟨"/audits/a.json", [1], rfl, rfl, rfl⟩
  have hselected : List.Forall₂ (Selects sampleBodyRefContext (some "/audits")) rangeAndInline
      [[sampleShare 1 alice 5, sampleShare 2 bob 3], [sampleShare 3 carol 2]] :=
    .cons (.segmentRange hsegment) (.cons .inline .nil)
  rw [forall₂_selects_unique hslices hselected]
  decide

def topShare : AcceptedShare := { sampleShare 1 alice 5 with shareSeq := .wrapping (2 ^ 64 - 1) }
def zeroShare : AcceptedShare := { sampleShare 2 bob 3 with shareSeq := 0 }

def overTop : List SharePart := [.inline (.wrapping (2 ^ 64 - 1)) 0 2 [topShare, zeroShare]]

/-- An inline part that steps from the highest sequence number to zero is resolved. -/
theorem resolve_steps_over_top : ∃ bundle,
    resolve sampleBodyRefContext none (sampleEnvelope 2 [topShare, zeroShare] overTop) = .ok bundle ∧
      ¬ExactlyItsParts sampleBodyRefContext none (sampleEnvelope 2 [topShare, zeroShare] overTop) bundle := by
  have hok : (resolve sampleBodyRefContext none
      (sampleEnvelope 2 [topShare, zeroShare] overTop)).toOption.any
        (fun bundle => bundle.shares = [topShare, zeroShare]) = true := by decide +kernel
  obtain ⟨bundle, hbundle, hshares⟩ := exists_of_any hok
  refine ⟨bundle, hbundle, fun hexact => ?_⟩
  have hrun := hexact.contiguous
  rw [of_decide_eq_true hshares] at hrun
  exact absurd (isChain_cons_cons.mp hrun).1 (by decide)

end BodyRef
end QbitPrism
