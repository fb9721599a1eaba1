import Mathlib
import QbitPrism.Lib.CompactJson
import QbitPrism.Parallel.InOrder
import QbitPrism.Window.Parallel
import QbitPrism.Audit.Stored
import QbitPrism.Audit.Soundness

/-!
# The canonical hash in two parts

The builder hashes the canonical bytes of a bundle in two parts: the schema and the shares while
the body is being built, and the body's fields afterwards (`audit_hash.rs`). Large arrays are
written in chunks by several threads (`parallel.rs`). A hash state is the bytes it has absorbed.
-/
namespace QbitPrism
open CompactJson List

def plainChar (c : Char) : Bool := 0x20 ≤ c.toNat && c.toNat != 0x22 && c.toNat != 0x5c

/-- How `serde_json` writes what a bundle holds. A string without a character to escape stands
between quotes; a value reaches a writer in any number of writes. -/
structure AuditJson where
  string : String → List UInt8
  u64 : MachineInt.U64 → List UInt8
  u128 : MachineInt.U128 → List UInt8
  i64 : MachineInt.I64 → List UInt8
  usize : ℕ → List UInt8
  cut : WindowCut → List UInt8
  acceptedShare : AcceptedShare → List UInt8
  countedShare : CountedShare → List UInt8
  entitlements : List WeightedEntitlement → List UInt8
  foundBlock : FoundBlock → List UInt8
  priorBalances : List CarryForwardBalance → List UInt8
  payoutPolicy : PayoutPolicy → List UInt8
  strings : List String → List UInt8
  attestation : LedgerWindowAttestation → List UInt8
  payoutPolicyManifest : PayoutPolicyManifest → List UInt8
  settlementModeDecision : SettlementModeDecision → List UInt8
  fanoutFeePolicy : FanoutFeeRatePolicy → List UInt8
  fanoutManifestSet : CtvFanoutManifestSet → List UInt8
  signedManifest : SignedPayoutManifest → List UInt8
  writes : List UInt8 → List (List UInt8)
  string_plain : ∀ text : String, text.toList.all plainChar → string text = 0x22 :: (Hex.utf8 text ++ [0x22])
  writes_flatten : ∀ bytes, (writes bytes).flatten = bytes

variable (json : AuditJson)

def optionalField {α : Type} (name : String) (value : Option α) (bytes : α → List UInt8) :
    List (String × List UInt8) :=
  match value with
  | some value => [(name, bytes value)]
  | none => []

def nonEmptyField (name : String) (value : List String) : List (String × List UInt8) :=
  if value = [] then [] else [(name, json.strings value)]

def PrismRewardManifest.jsonFields (manifest : PrismRewardManifest) : List (String × List UInt8) :=
  [("schema", json.string manifest.schema),
    ("block_height", json.u64 manifest.blockHeight),
    ("coinbase_value_sats", json.u64 manifest.coinbaseValueSats),
    ("network_difficulty", json.u128 manifest.networkDifficulty),
    ("window_multiplier", json.u128 manifest.windowMultiplier),
    ("requested_window_weight", json.u128 manifest.requestedWindowWeight),
    ("counted_window_weight", json.u128 manifest.countedWindowWeight),
    ("anchor_job_issued_at_ms", json.i64 manifest.anchorJobIssuedAtMs),
    ("anchor_share_seq", json.u64 manifest.anchorShareSeq),
    ("newest_share_seq", json.u64 manifest.newestShareSeq),
    ("oldest_share_seq", json.u64 manifest.oldestShareSeq)] ++
  (optionalField "cut" manifest.cut json.cut ++
    [("included_share_count", json.usize manifest.includedShareCount),
      ("share_slice_digest_hex", json.string manifest.shareSliceDigestHex),
      ("shares", array (manifest.shares.map json.countedShare)),
      ("entitlements", json.entitlements manifest.entitlements)])

def rewardManifestJson (manifest : PrismRewardManifest) : List UInt8 :=
  object json.string (manifest.jsonFields json)

/-- The fields after `schema` and `shares`. -/
def AuditBundleBody.suffixFields (body : AuditBundleBody) : List (String × List UInt8) :=
  [("found_block", json.foundBlock body.foundBlock),
    ("prior_balances", json.priorBalances body.priorBalances),
    ("payout_policy", json.payoutPolicy body.payoutPolicy)] ++
  (optionalField "coinbase_script_sig_suffix_hex" body.coinbaseScriptSigSuffixHex json.string ++
  (nonEmptyField json "witness_merkle_leaves_hex" body.witnessMerkleLeavesHex ++
  (nonEmptyField json "audit_commitment_leaves_hex" body.auditCommitmentLeavesHex ++
  (optionalField "audit_commitment_root_hex" body.auditCommitmentRootHex json.string ++
  ([("ledger_window_attestation", json.attestation body.ledgerWindowAttestation),
    ("reward_manifest", rewardManifestJson json body.rewardManifest),
    ("payout_policy_manifest", json.payoutPolicyManifest body.payoutPolicyManifest)] ++
  (optionalField "settlement_mode_decision" body.settlementModeDecision json.settlementModeDecision ++
  (optionalField "ctv_fanout_fee_policy" body.ctvFanoutFeePolicy json.fanoutFeePolicy ++
  (optionalField "ctv_fanout_manifest_set" body.ctvFanoutManifestSet json.fanoutManifestSet ++
  [("signed_coinbase_manifest", json.signedManifest body.signedCoinbaseManifest)]))))))))

def sharesJson (shares : List AcceptedShare) : List UInt8 := array (shares.map json.acceptedShare)

/-- `AuditBundleRef`'s own serialisation: the view is the body's fields and a share window. -/
def auditBundleRefJson (body : AuditBundleBody) (shares : List AcceptedShare) : List UInt8 :=
  object json.string ([("schema", json.string body.schema), ("shares", sharesJson json shares)] ++
    body.suffixFields json)

def canonicalAuditBundleJson (bundle : AuditBundle) : List UInt8 :=
  auditBundleRefJson json bundle.intoParts.1 bundle.intoParts.2

def canonicalAuditBundleJsonFromParts (body : AuditBundleBody) (shares : List AcceptedShare) :
    List UInt8 :=
  auditBundleRefJson json body shares

section Arrays

def frameLen (items : List (List UInt8)) (parallelism : Parallelism) : ℕ :=
  max (min parallelism.chunkLen items.length) 1

/-- The call of `ordered_chunks` over the chunks of an array, on whatever pool it finds. -/
def chunkConfig (items : List (List UInt8)) (parallelism : Parallelism) (started : ℕ)
    (onPoolThread : Bool) : OrderedChunks.Config (List UInt8) String where
  count := (items.length + frameLen items parallelism - 1) / frameLen items parallelism
  workers := parallelism.workers
  produce index := .ok (piece index (CompactJson.slice items (frameLen items parallelism) index))
  started := started
  onPoolThread := onPoolThread

/-- `write_array_frames` hands these frames to its consumer, in this order. -/
def WritesFrames (items : List (List UInt8)) (parallelism : Parallelism)
    (frames : List (List UInt8)) : Prop :=
  if parallelism.isSerial ∨ items.length ≤ frameLen items parallelism then frames = [array items]
  else
    ∃ started onPoolThread s,
      OrderedChunks.Reachable (chunkConfig items parallelism started onPoolThread) s ∧
      s.phase = .returned (.ok ()) ∧
      frames = [[0x5b]] ++ s.calls.map OrderedChunks.Consumed.chunk ++ [[0x5d]]

/-- `write_array` writes these bytes. -/
def WritesArray (items : List (List UInt8)) (parallelism : Parallelism) (bytes : List UInt8) : Prop :=
  if parallelism.isSerial ∨ items.length ≤ parallelism.chunkLen then bytes = array items
  else ∃ frames, WritesFrames items parallelism frames ∧ bytes = frames.flatten

end Arrays

/-- The state of `SpliceFields`: what it has written, whether a field has been, and whether the
splice is used up. -/
structure SpliceState where
  written : List UInt8
  first : Bool
  spliced : Bool

def SpliceState.serializeField (fieldName : String) (splice : List UInt8) (state : SpliceState)
    (entry : String × List UInt8) : Except String SpliceState :=
  let written := (if state.first then state.written else state.written ++ [comma]) ++
    json.string entry.1 ++ [colon]
  if entry.1 = fieldName then
    if state.spliced then .error "spliced field serialized twice"
    else .ok { written := written ++ splice, first := false, spliced := true }
  else .ok { written := written ++ entry.2, first := false, spliced := state.spliced }

/-- `StructSplice` over a struct's fields. -/
def structSplice (opening : List UInt8) (fieldName : String) (splice : List UInt8)
    (fields : List (String × List UInt8)) : Except String (List UInt8) := do
  let state ← fields.foldlM (SpliceState.serializeField json fieldName splice)
    { written := opening, first := true, spliced := false }
  pure (state.written ++ [0x7d])

/-- `write_reward_manifest` writes these bytes. -/
def WritesRewardManifest (manifest : PrismRewardManifest) (parallelism : Parallelism)
    (bytes : List UInt8) : Prop :=
  if parallelism.isSerial then bytes = rewardManifestJson json manifest
  else
    ∃ shares, WritesArray (manifest.shares.map json.countedShare) parallelism shares ∧
      structSplice json [0x7b] "shares" shares (manifest.jsonFields json) = .ok bytes

/-- `ContinueObject`: the first byte written must open an object, and becomes a comma. -/
def continueObjectWrite (state : Bool × List UInt8) (bytes : List UInt8) :
    Except String (Bool × List UInt8) :=
  match state.1, bytes with
  | false, first :: rest =>
    if first = 0x7b then .ok (true, state.2 ++ comma :: rest)
    else .error "audit suffix must be an object"
  | started, bytes => .ok (started, state.2 ++ bytes)

def writeSuffix (absorbed : List UInt8) (body : AuditBundleBody) : Except String (List UInt8) := do
  let (_, written) ← (json.writes (object json.string (body.suffixFields json))).foldlM
    continueObjectWrite (false, absorbed)
  pure written

/-- `write_suffix_with` brings a hash state from `absorbed` to `bytes`. -/
def WritesSuffix (absorbed : List UInt8) (body : AuditBundleBody) (parallelism : Parallelism)
    (bytes : List UInt8) : Prop :=
  if parallelism.isSerial then writeSuffix json absorbed body = .ok bytes
  else
    ∃ manifest suffix, WritesRewardManifest json body.rewardManifest parallelism manifest ∧
      structSplice json [comma] "reward_manifest" manifest (body.suffixFields json) = .ok suffix ∧
      bytes = absorbed ++ suffix

/-- The hash state after `schema` and the shares. -/
structure CanonicalAuditHashPrefix where
  absorbed : List UInt8
  schema : String

def prefixHeader (schema : String) : List UInt8 :=
  Hex.utf8 "\x7b\"schema\":" ++ json.string schema ++ Hex.utf8 ",\"shares\":"

/-- The states `new_with` returns. -/
def NewWith (shares : List AcceptedShare) (parallelism : Parallelism)
    (state : CanonicalAuditHashPrefix) : Prop :=
  ∃ bytes, WritesArray (shares.map json.acceptedShare) parallelism bytes ∧
    state = ⟨prefixHeader json (auditBundleSchemaForShares shares) ++ bytes, auditBundleSchemaForShares shares⟩

/-- The states `new_with_share_digest` returns, with what the share digest covers. On several
threads every frame updates the one state and is sent, in order, to the thread of the other. -/
def NewWithShareDigest (shares : List AcceptedShare) (parallelism : Parallelism)
    (state : CanonicalAuditHashPrefix) (digested : List UInt8) : Prop :=
  let schema := auditBundleSchemaForShares shares
  if parallelism.isSerial then
    WritesArray (shares.map json.acceptedShare) parallelism digested ∧
      state = ⟨prefixHeader json schema ++ digested, schema⟩
  else
    ∃ frames, WritesFrames (shares.map json.acceptedShare) parallelism frames ∧
      digested = frames.flatten ∧ state = ⟨prefixHeader json schema ++ frames.flatten, schema⟩

/-- What `finish_with` feeds to the hash in all, when it does not refuse the body. -/
def FinishWith (state : CanonicalAuditHashPrefix) (body : AuditBundleBody) (parallelism : Parallelism)
    (bytes : List UInt8) : Prop :=
  body.schema = state.schema ∧ WritesSuffix json state.absorbed body parallelism bytes

variable {parallelism : Parallelism}

variable {items : List (List UInt8)} {fields : List (String × List UInt8)} {body : AuditBundleBody}
  {state : CanonicalAuditHashPrefix}

theorem flatten_frames {frames : List (List UInt8)} (h : WritesFrames items parallelism frames) :
    frames.flatten = array items := by
  unfold WritesFrames at h
  split_ifs at h with hwhole
  · rw [h, flatten_singleton]
  · obtain ⟨started, onPoolThread, s, hreach, hphase, rfl⟩ := h
    obtain ⟨-, hlong⟩ := not_or.mp hwhole
    have hpos : 0 < frameLen items parallelism := lt_of_lt_of_le Nat.one_pos (le_max_right _ _)
    have hitems : items ≠ [] := by
      rintro rfl
      exact hlong (Nat.zero_le _)
    have hcover : items.length ≤
        (chunkConfig items parallelism started onPoolThread).count * frameLen items parallelism := by
      have hceil := Nat.lt_div_mul_add hpos (a := items.length + frameLen items parallelism - 1)
      simp only [chunkConfig]
      omega
    rw [OrderedChunks.chunks_of_returned rfl hreach hphase, array, ← flatMap_piece hpos hitems hcover]
    simp [List.flatMap]

theorem exists_writesFrames (items : List (List UInt8)) (parallelism : Parallelism) :
    ∃ frames, WritesFrames items parallelism frames := by
  unfold WritesFrames
  split_ifs with hwhole
  · exact ⟨_, rfl⟩
  · obtain ⟨s, hreach, hphase⟩ : ∃ s,
        OrderedChunks.Reachable (chunkConfig items parallelism 0 false) s ∧ s.phase = .returned (.ok ()) :=
      OrderedChunks.exists_returned rfl
    exact ⟨_, 0, false, s, hreach, hphase, rfl⟩

variable {bytes : List UInt8}

theorem writesArray_iff : WritesArray items parallelism bytes ↔ bytes = array items := by
  unfold WritesArray
  split_ifs with hwhole
  · exact Iff.rfl
  · constructor
    · rintro ⟨frames, hframes, rfl⟩
      exact flatten_frames hframes
    · rintro rfl
      obtain ⟨frames, hframes⟩ := exists_writesFrames items parallelism
      exact ⟨frames, hframes, (flatten_frames hframes).symm⟩

section Splices
variable {fieldName : String} {splice : List UInt8}

theorem serializeField_eq {state : SpliceState} {entry : String × List UInt8}
    (hsplice : entry.1 = fieldName → entry.2 = splice) (hunused : state.spliced → entry.1 ≠ fieldName) :
    SpliceState.serializeField json fieldName splice state entry =
      .ok { written := (if state.first then state.written else state.written ++ [comma]) ++
              field json.string entry
            first := false
            spliced := state.spliced || decide (entry.1 = fieldName) } := by
  unfold SpliceState.serializeField
  by_cases hname : entry.1 = fieldName
  · have hspliced : ¬state.spliced := fun h => hunused h hname
    simp [hname, hspliced, field, hsplice hname]
  · simp [hname, field]

theorem foldlM_serializeField (fields : List (String × List UInt8)) (state : SpliceState)
    (hnames : (fields.map Prod.fst).Nodup) (hsplice : ∀ entry ∈ fields, entry.1 = fieldName → entry.2 = splice)
    (hunused : state.spliced → fieldName ∉ fields.map Prod.fst) :
    ∃ after, fields.foldlM (SpliceState.serializeField json fieldName splice) state = .ok after ∧
      after.written = state.written ++
        (if state.first then separated else led) (fields.map (field json.string)) := by
  induction fields generalizing state with
  | nil => exact ⟨state, rfl, by cases state.first <;> simp [separated]⟩
  | cons entry rest ih =>
    obtain ⟨hfresh, hrest⟩ := nodup_cons.mp hnames
    have hlater : ∀ other ∈ rest, other.1 = fieldName → other.2 = splice :=
      fun other hother => hsplice other (mem_cons_of_mem _ hother)
    have hused : state.spliced || decide (entry.1 = fieldName) → fieldName ∉ rest.map Prod.fst := by
      intro hused hmem
      rcases Bool.or_eq_true_iff.mp hused with hspliced | hname
      · exact hunused hspliced (mem_cons_of_mem _ hmem)
      · exact hfresh (of_decide_eq_true hname ▸ hmem)
    rw [foldlM_cons, serializeField_eq json (hsplice entry mem_cons_self)
      fun hspliced hname => hunused hspliced (hname ▸ mem_cons_self), Checked.ok_bind]
    obtain ⟨after, hafter, hwritten⟩ := ih
      ⟨(if state.first then state.written else state.written ++ [comma]) ++ field json.string entry,
        false, state.spliced || decide (entry.1 = fieldName)⟩ hrest hlater hused
    refine ⟨after, hafter, ?_⟩
    rw [hwritten, map_cons]
    cases state.first <;> simp [separated_cons]

theorem structSplice_eq (opening : List UInt8) (hnames : (fields.map Prod.fst).Nodup)
    (hsplice : ∀ entry ∈ fields, entry.1 = fieldName → entry.2 = splice) :
    structSplice json opening fieldName splice fields =
      .ok (opening ++ separated (fields.map (field json.string)) ++ [0x7d]) := by
  obtain ⟨after, hafter, hwritten⟩ :=
    foldlM_serializeField json fields ⟨opening, true, false⟩ hnames hsplice (by simp)
  rw [structSplice, hafter, Checked.ok_bind, hwritten]
  rfl

end Splices

theorem optionalField_names {α : Type} (name : String) (value : Option α) (bytes : α → List UInt8) :
    ((optionalField name value bytes).map Prod.fst).Sublist [name] := by
  cases value <;> simp [optionalField]

theorem nonEmptyField_names (name : String) (value : List String) :
    ((nonEmptyField json name value).map Prod.fst).Sublist [name] := by
  unfold nonEmptyField
  split_ifs <;> simp

theorem PrismRewardManifest.jsonFields_nodup (manifest : PrismRewardManifest) :
    ((manifest.jsonFields json).map Prod.fst).Nodup := by
  have hsub : ((manifest.jsonFields json).map Prod.fst).Sublist
      (["schema", "block_height", "coinbase_value_sats", "network_difficulty", "window_multiplier",
        "requested_window_weight", "counted_window_weight", "anchor_job_issued_at_ms",
        "anchor_share_seq", "newest_share_seq", "oldest_share_seq"] ++ (["cut"] ++
        ["included_share_count", "share_slice_digest_hex", "shares", "entitlements"])) := by
    simp only [PrismRewardManifest.jsonFields, map_append]
    exact (List.Sublist.refl _).append ((optionalField_names _ _ _).append (List.Sublist.refl _))
  exact hsub.nodup (by decide)

theorem AuditBundleBody.suffixFields_nodup (body : AuditBundleBody) :
    ((body.suffixFields json).map Prod.fst).Nodup := by
  have hsub : ((body.suffixFields json).map Prod.fst).Sublist
      (["found_block", "prior_balances", "payout_policy"] ++ (["coinbase_script_sig_suffix_hex"] ++
        (["witness_merkle_leaves_hex"] ++ (["audit_commitment_leaves_hex"] ++
        (["audit_commitment_root_hex"] ++
        (["ledger_window_attestation", "reward_manifest", "payout_policy_manifest"] ++
        (["settlement_mode_decision"] ++ (["ctv_fanout_fee_policy"] ++ (["ctv_fanout_manifest_set"] ++
        ["signed_coinbase_manifest"]))))))))) := by
    simp only [AuditBundleBody.suffixFields, map_append]
    exact (List.Sublist.refl _).append ((optionalField_names _ _ _).append
      ((nonEmptyField_names _ _ _).append ((nonEmptyField_names _ _ _).append
      ((optionalField_names _ _ _).append ((List.Sublist.refl _).append
      ((optionalField_names _ _ _).append ((optionalField_names _ _ _).append
      ((optionalField_names _ _ _).append (List.Sublist.refl _)))))))))
  exact hsub.nodup (by decide)

theorem value_of_nodup (hnames : (fields.map Prod.fst).Nodup) {name : String} {value : List UInt8}
    (hmem : (name, value) ∈ fields) : ∀ entry ∈ fields, entry.1 = name → entry.2 = value := by
  intro entry hentry hname
  rw [inj_on_of_nodup_map hnames hentry hmem hname]

theorem writesRewardManifest_iff {manifest : PrismRewardManifest} :
    WritesRewardManifest json manifest parallelism bytes ↔ bytes = rewardManifestJson json manifest := by
  have hsplice : structSplice json [0x7b] "shares" (array (manifest.shares.map json.countedShare))
      (manifest.jsonFields json) = .ok (rewardManifestJson json manifest) := by
    have hnames := manifest.jsonFields_nodup json
    rw [structSplice_eq json _ hnames (value_of_nodup hnames (by simp [PrismRewardManifest.jsonFields]))]
    rfl
  unfold WritesRewardManifest
  split_ifs with hserial
  · exact Iff.rfl
  · simp only [writesArray_iff, exists_eq_left, hsplice, Except.ok.injEq, eq_comm]

theorem continueObjectWrite_started (absorbed bytes : List UInt8) :
    continueObjectWrite (true, absorbed) bytes = .ok (true, absorbed ++ bytes) := by
  cases bytes <;> rfl

theorem foldlM_continueObjectWrite_started (chunks : List (List UInt8)) (absorbed : List UInt8) :
    chunks.foldlM continueObjectWrite (true, absorbed) = .ok (true, absorbed ++ chunks.flatten) := by
  induction chunks generalizing absorbed with
  | nil => simp [pure, Except.pure]
  | cons chunk rest ih =>
    rw [foldlM_cons, continueObjectWrite_started, Checked.ok_bind, ih]
    simp

theorem foldlM_continueObjectWrite {chunks : List (List UInt8)} {rest : List UInt8}
    (absorbed : List UInt8) (h : chunks.flatten = 0x7b :: rest) :
    chunks.foldlM continueObjectWrite (false, absorbed) = .ok (true, absorbed ++ comma :: rest) := by
  -- Empty writes pass through; the first other write holds the brace.
  induction chunks with
  | nil => cases h
  | cons chunk chunks ih =>
    rw [foldlM_cons]
    cases chunk with
    | nil =>
      have hwrite : continueObjectWrite (false, absorbed) [] = .ok (false, absorbed ++ []) := rfl
      rw [hwrite, Checked.ok_bind, append_nil]
      exact ih h
    | cons first others =>
      obtain ⟨rfl, rfl⟩ := List.cons.inj h
      have hwrite : continueObjectWrite (false, absorbed) (0x7b :: others) =
        .ok (true, absorbed ++ comma :: others) := rfl
      rw [hwrite, Checked.ok_bind, foldlM_continueObjectWrite_started]
      simp

theorem writesSuffix_iff {absorbed : List UInt8} :
    WritesSuffix json absorbed body parallelism bytes ↔
      bytes = absorbed ++ (led ((body.suffixFields json).map (field json.string)) ++ [0x7d]) := by
  have hfields : (body.suffixFields json).map (field json.string) ≠ [] := by
    simp [AuditBundleBody.suffixFields]
  unfold WritesSuffix
  split_ifs with hserial
  · have hobject : (json.writes (object json.string (body.suffixFields json))).flatten = _ :=
      json.writes_flatten _
    rw [writeSuffix, foldlM_continueObjectWrite absorbed hobject, Checked.ok_bind, ← cons_append,
      comma_separated hfields]
    exact ⟨fun h => (Except.ok.inj h).symm, fun h => h ▸ rfl⟩
  · have hsplice : structSplice json [comma] "reward_manifest"
        (rewardManifestJson json body.rewardManifest) (body.suffixFields json) =
        .ok (led ((body.suffixFields json).map (field json.string)) ++ [0x7d]) := by
      have hnames := body.suffixFields_nodup json
      rw [structSplice_eq json _ hnames (value_of_nodup hnames (by simp [AuditBundleBody.suffixFields])),
        ← comma_separated hfields]
      rfl
    constructor
    · rintro ⟨manifest, suffix, hmanifest, hsuffix, rfl⟩
      rw [(writesRewardManifest_iff json).mp hmanifest, hsplice] at hsuffix
      rw [Except.ok.inj hsuffix]
    · intro hbytes
      exact ⟨_, _, (writesRewardManifest_iff json).mpr rfl, hsplice, hbytes⟩

theorem prefixHeader_eq (schema : String) :
    prefixHeader json schema =
      0x7b :: (field json.string ("schema", json.string schema) ++ comma :: (json.string "shares" ++ [colon])) := by
  have hschema := json.string_plain "schema" (by decide +kernel)
  have hshares := json.string_plain "shares" (by decide +kernel)
  have hopen : Hex.utf8 "\x7b\"schema\":" = 0x7b :: 0x22 :: (Hex.utf8 "schema" ++ [0x22, colon]) := by
    decide +kernel
  have hclose : Hex.utf8 ",\"shares\":" = comma :: 0x22 :: (Hex.utf8 "shares" ++ [0x22, colon]) := by
    decide +kernel
  rw [prefixHeader, field, hschema, hshares, hopen, hclose]
  simp

theorem prefixHeader_append (body : AuditBundleBody) (shares : List AcceptedShare) :
    prefixHeader json body.schema ++ sharesJson json shares ++
      (led ((body.suffixFields json).map (field json.string)) ++ [0x7d]) =
    auditBundleRefJson json body shares := by
  rw [auditBundleRefJson, object_split _ _ _ (by simp), prefixHeader_eq]
  simp [separated, field]

variable {shares : List AcceptedShare}

theorem newWith_iff :
    NewWith json shares parallelism state ↔
      state = ⟨prefixHeader json (auditBundleSchemaForShares shares) ++ sharesJson json shares,
        auditBundleSchemaForShares shares⟩ := by
  simp only [NewWith, writesArray_iff, exists_eq_left, sharesJson]

theorem newWithShareDigest_iff {digested : List UInt8} :
    NewWithShareDigest json shares parallelism state digested ↔
      digested = sharesJson json shares ∧
      state = ⟨prefixHeader json (auditBundleSchemaForShares shares) ++ sharesJson json shares,
        auditBundleSchemaForShares shares⟩ := by
  unfold NewWithShareDigest
  split_ifs with hserial
  · rw [writesArray_iff]
    constructor
    · rintro ⟨rfl, rfl⟩
      exact ⟨rfl, rfl⟩
    · rintro ⟨rfl, rfl⟩
      exact ⟨rfl, rfl⟩
  · constructor
    · rintro ⟨frames, hframes, rfl, rfl⟩
      rw [flatten_frames hframes]
      exact ⟨rfl, rfl⟩
    · rintro ⟨rfl, rfl⟩
      obtain ⟨frames, hframes⟩ := exists_writesFrames (shares.map json.acceptedShare) parallelism
      refine ⟨frames, hframes, ?_, ?_⟩ <;> rw [flatten_frames hframes] <;> rfl

theorem finishWith_iff (hschema : auditBundleSchemaForShares shares = body.schema) :
    FinishWith json ⟨prefixHeader json (auditBundleSchemaForShares shares) ++ sharesJson json shares,
        auditBundleSchemaForShares shares⟩ body parallelism bytes ↔
      bytes = auditBundleRefJson json body shares := by
  rw [FinishWith, writesSuffix_iff, hschema, prefixHeader_append]
  exact and_iff_right rfl

/-- Hashing in two parts, on any number of threads in either, feeds the hash exactly the canonical
bytes of the bundle, and the share digest exactly the share array. -/
theorem splitHash_canonical (body : AuditBundleBody) (shares : List AcceptedShare)
    (hschema : auditBundleSchemaForShares shares = body.schema) (building finishing : Parallelism) :
    (∃ state bytes, NewWith json shares building state ∧ FinishWith json state body finishing bytes) ∧
    (∃ state digested bytes, NewWithShareDigest json shares building state digested ∧
      FinishWith json state body finishing bytes) ∧
    (∀ state bytes, NewWith json shares building state → FinishWith json state body finishing bytes →
      bytes = canonicalAuditBundleJsonFromParts json body shares) ∧
    (∀ state digested, NewWithShareDigest json shares building state digested →
      digested = sharesJson json shares ∧
      ∀ bytes, FinishWith json state body finishing bytes →
        bytes = canonicalAuditBundleJsonFromParts json body shares) ∧
    canonicalAuditBundleJsonFromParts json body shares =
      canonicalAuditBundleJson json (body.intoBundle shares) := by
  refine ⟨?_, ?_, ?_, ?_, rfl⟩
  · exact ⟨_, _, (newWith_iff json).mpr rfl, (finishWith_iff json hschema).mpr rfl⟩
  · exact ⟨_, _, _, (newWithShareDigest_iff json).mpr ⟨rfl, rfl⟩, (finishWith_iff json hschema).mpr rfl⟩
  · intro state bytes hnew hfinish
    obtain rfl := (newWith_iff json).mp hnew
    exact (finishWith_iff json hschema).mp hfinish
  · intro state digested hnew
    obtain ⟨rfl, rfl⟩ := (newWithShareDigest_iff json).mp hnew
    exact ⟨rfl, fun bytes hfinish => (finishWith_iff json hschema).mp hfinish⟩

def sampleJson : AuditJson where
  string text := 0x22 :: (Hex.utf8 text ++ [0x22])
  u64 value := Hex.utf8 (toString value.val)
  u128 value := Hex.utf8 (toString value.val)
  i64 value := Hex.utf8 (toString value.val)
  usize value := Hex.utf8 (toString value)
  cut _ := Hex.utf8 "null"
  acceptedShare share := Hex.utf8 (toString share.shareSeq.val)
  countedShare share := Hex.utf8 (toString share.shareSeq.val)
  entitlements _ := Hex.utf8 "[]"
  foundBlock block := Hex.utf8 (toString block.blockHeight.val)
  priorBalances _ := Hex.utf8 "[]"
  payoutPolicy _ := Hex.utf8 "null"
  strings _ := Hex.utf8 "[]"
  attestation _ := Hex.utf8 "null"
  payoutPolicyManifest _ := Hex.utf8 "null"
  settlementModeDecision _ := Hex.utf8 "null"
  fanoutFeePolicy _ := Hex.utf8 "null"
  fanoutManifestSet _ := Hex.utf8 "null"
  signedManifest _ := Hex.utf8 "null"
  writes bytes := bytes.map fun byte => [byte]
  string_plain _ _ := rfl
  writes_flatten bytes := flatMap_singleton' bytes

theorem splitHash_canonical_honest :
    auditBundleSchemaForShares honestBundle.shares = honestBundle.intoParts.1.schema ∧
    ∀ state bytes,
      NewWith sampleJson honestBundle.shares ⟨4, 2, by decide, by decide⟩ state →
      FinishWith sampleJson state honestBundle.intoParts.1 Parallelism.serial bytes →
      bytes = canonicalAuditBundleJsonFromParts sampleJson honestBundle.intoParts.1 honestBundle.shares := by
  have hschema : auditBundleSchemaForShares honestBundle.shares = honestBundle.intoParts.1.schema := by
    decide +kernel
  exact ⟨hschema, (splitHash_canonical sampleJson honestBundle.intoParts.1 honestBundle.shares hschema
    ⟨4, 2, by decide, by decide⟩ Parallelism.serial).2.2.1⟩

end QbitPrism
