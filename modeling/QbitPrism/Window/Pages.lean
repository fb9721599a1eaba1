import Mathlib
import QbitPrism.Window.Reward

/-!
# The paged payout window

`PayoutWindow` of `window.rs`: the newest whole shares whose difficulties reach the window
weight, kept in pages with the canonical bytes of every record. It is folded from a full
snapshot or advanced by a delta of newer shares, which fills the last page, appends new ones
and expires whole pages and then records at the old end.
-/
namespace QbitPrism
open MachineInt Checked SortBy ByteReader

def pushU16Escape (unit : ℕ) : List UInt8 :=
  [0x5c, 0x75] ++ [unit / 4096 % 16, unit / 256 % 16, unit / 16 % 16, unit % 16].map
    fun nibble => UInt8.ofNat (Hex.digit nibble).toNat

/-- One character inside a JSON string; beyond the basic plane it is a surrogate pair. -/
def pythonJsonEscape (codePoint : ℕ) : List UInt8 :=
  if codePoint = 0x22 then [0x5c, 0x22]
  else if codePoint = 0x5c then [0x5c, 0x5c]
  else if codePoint = 0x08 then [0x5c, 0x62]
  else if codePoint = 0x09 then [0x5c, 0x74]
  else if codePoint = 0x0a then [0x5c, 0x6e]
  else if codePoint = 0x0c then [0x5c, 0x66]
  else if codePoint = 0x0d then [0x5c, 0x72]
  else if 0x20 ≤ codePoint ∧ codePoint < 0x7f then [UInt8.ofNat codePoint]
  else if codePoint < 0x10000 then pushU16Escape codePoint
  else pushU16Escape (0xd800 + (codePoint - 0x10000) / 1024) ++
    pushU16Escape (0xdc00 + (codePoint - 0x10000) % 1024)

def pushPythonJsonEscaped (value : String) : List UInt8 :=
  [0x22] ++ (value.toList.flatMap fun c => pythonJsonEscape c.toNat) ++ [0x22]

/-- A record's canonical JSON: the keys sorted, `credit_policy` left out when absent. -/
def canonicalShareFragment (share : AcceptedShare) : List UInt8 :=
  [Hex.utf8 "\x7b\"accepted_at_ms\":", Hex.utf8 (toString share.acceptedAtMs.val),
    match share.creditPolicy with
    | none => []
    | some creditPolicy => Hex.utf8 ",\"credit_policy\":" ++ pushPythonJsonEscaped creditPolicy,
    Hex.utf8 ",\"job_id\":", pushPythonJsonEscaped share.jobId,
    Hex.utf8 ",\"job_issued_at_ms\":", Hex.utf8 (toString share.jobIssuedAtMs.val),
    Hex.utf8 ",\"miner_id\":", pushPythonJsonEscaped share.minerId,
    Hex.utf8 ",\"network_difficulty\":", Hex.utf8 (toString share.networkDifficulty.val),
    Hex.utf8 ",\"ntime\":", Hex.utf8 (toString share.ntime.val),
    Hex.utf8 ",\"order_key\":", pushPythonJsonEscaped share.orderKey,
    Hex.utf8 ",\"p2mr_program_hex\":", pushPythonJsonEscaped share.p2mrProgramHex,
    Hex.utf8 ",\"share_difficulty\":", Hex.utf8 (toString share.shareDifficulty.val),
    Hex.utf8 ",\"share_id\":", pushPythonJsonEscaped share.shareId,
    Hex.utf8 ",\"share_seq\":", Hex.utf8 (toString share.shareSeq.val),
    Hex.utf8 ",\"template_height\":", Hex.utf8 (toString share.templateHeight.val),
    Hex.utf8 "\x7d"].flatten

structure WindowPage where
  records : List AcceptedShare
  fragments : List (List UInt8)
  totalDifficulty : U128
  deriving DecidableEq

namespace WindowPage

def fromRetained (records : List AcceptedShare) (fragments : List (List UInt8)) : WindowPage :=
  { records
    fragments
    totalDifficulty := (records.map (·.shareDifficulty)).foldl Unsigned.saturatingAdd 0 }

def fromRecords (records : List AcceptedShare) : WindowPage :=
  fromRetained records (records.map canonicalShareFragment)

end WindowPage

structure PayoutWindow where
  anchorJobIssuedAtMs : I64
  windowWeight : U128
  pageSize : ℕ
  pages : List WindowPage
  totalDifficulty : U128
  deriving DecidableEq

/-- Cut a list into pieces of a size; every round takes at least one element. -/
def chunks {α : Type} (size : ℕ) : ℕ → List α → List (List α)
  | 0, _ => []
  | _ + 1, [] => []
  | fuel + 1, x :: xs => (x :: xs).take size :: chunks size fuel ((x :: xs).drop size)

namespace PayoutWindow

def recordCount (window : PayoutWindow) : ℕ :=
  (window.pages.map fun page => page.records.length).sum

def fragmentLengths (window : PayoutWindow) : List ℕ :=
  window.pages.flatMap fun page => page.fragments.map List.length

def sharesForBuild (window : PayoutWindow) : List AcceptedShare :=
  window.pages.flatMap (·.records)

/-- Fragments joined with commas, with one before the first if asked. -/
def joinFragments (needsSeparator : Bool) : List (List UInt8) → List UInt8
  | [] => []
  | fragment :: rest => (if needsSeparator then [0x2c] else []) ++ (fragment ++ joinFragments true rest)

def canonicalItemsBytes (window : PayoutWindow) : List UInt8 :=
  joinFragments false (window.pages.flatMap (·.fragments))

/-- The bytes the digest takes page by page; an empty page leaves no trace. -/
def digestItems (needsSeparator : Bool) : List WindowPage → List UInt8
  | [] => []
  | page :: pages =>
    if page.fragments = [] then digestItems needsSeparator pages
    else (if needsSeparator then [0x2c] else []) ++
      (joinFragments false page.fragments ++ digestItems true pages)

def canonicalDigestHex (crypto : Crypto) (window : PayoutWindow) : String :=
  crypto.sha256Hex ([0x5b] ++ digestItems false window.pages ++ [0x5d])

end PayoutWindow

inductive WindowFoldError where
  | nonPositiveWindowWeight
  | nonPositivePageSize
  | duplicateShareSeq
  | duplicateShareId
  | nonPositiveDifficulty
  | difficultyOverflow
  deriving DecidableEq

/-- One round of the check: the last sequence number and the share ids seen so far. -/
def checkRecord (state : Option U64 × List String) (record : AcceptedShare) :
    Except WindowFoldError (Option U64 × List String) := do
  let (priorSeq, shareIds) := state
  require (∀ prior ∈ priorSeq, prior.val < record.shareSeq.val) .duplicateShareSeq
  require (record.shareId ∉ shareIds) .duplicateShareId
  require (record.shareDifficulty ≠ 0) .nonPositiveDifficulty
  pure (some record.shareSeq, record.shareId :: shareIds)

/-- Walk from the newest record on until the weight is reached: how many records are kept,
and their difficulty. -/
def retainNewest (windowWeight : U128) : List AcceptedShare → ℕ → U128 →
    Except WindowFoldError (ℕ × U128)
  | [], kept, retainedWeight => pure (kept, retainedWeight)
  | record :: older, kept, retainedWeight =>
    if windowWeight.val ≤ retainedWeight.val then pure (kept, retainedWeight)
    else do
      let sum ← okOr (retainedWeight.checkedAdd record.shareDifficulty) .difficultyOverflow
      retainNewest windowWeight older (kept + 1) sum

def shareSeqCmp (a b : AcceptedShare) : Ordering := compare a.shareSeq.val b.shareSeq.val

def PayoutWindow.fromFullSnapshot (records : List AcceptedShare) (anchorJobIssuedAtMs : I64)
    (windowWeight : U128) (pageSize : ℕ) : Except WindowFoldError PayoutWindow := do
  require (windowWeight ≠ 0) .nonPositiveWindowWeight
  require (pageSize ≠ 0) .nonPositivePageSize
  let eligible := sortBy shareSeqCmp (records.filter (·.eligible anchorJobIssuedAtMs))
  let _ ← eligible.foldlM checkRecord (none, [])
  let (kept, retainedWeight) ← retainNewest windowWeight eligible.reverse 0 0
  let retained := eligible.drop (eligible.length - kept)
  pure {
    anchorJobIssuedAtMs
    windowWeight
    pageSize
    pages := (chunks pageSize retained.length retained).map WindowPage.fromRecords
    totalDifficulty := retainedWeight }

/-- `panicked` is an arithmetic underflow. -/
inductive WindowAdvanceError where
  | anchorMovedBackwards
  | nonPositiveDifficulty
  | ineligibleAtNewAnchor
  | repeatsPreviouslyEligible
  | notAnAppend
  | deltaOrderNotIncreasing
  | difficultyOverflow
  | panicked
  deriving DecidableEq

structure WindowAdvanceStats where
  addedRows : ℕ
  expiredRows : ℕ
  touchedPages : ℕ
  deriving DecidableEq

structure WindowAdvanceByteDelta where
  retainedDropBytes : ℕ
  appendedItems : List UInt8
  deriving DecidableEq

/-- Drop elements from the front while the rest still reaches the weight: how many go, and
the difficulty left. -/
def expireWhile {α : Type} (difficulty : α → U128) (windowWeight : U128) :
    List α → U128 → Except WindowAdvanceError (ℕ × U128)
  | [], total => pure (0, total)
  | x :: rest, total => do
    let left ← okOr (total.checkedSub (difficulty x)) .panicked
    if windowWeight.val ≤ left.val then do
      let (count, final) ← expireWhile difficulty windowWeight rest left
      pure (count + 1, final)
    else pure (0, total)

namespace PayoutWindow

/-- One round of the delta's check; the state is the delta's last sequence number. -/
def checkDelta (window : PayoutWindow) (priorSeq : Option U64) (anchorJobIssuedAtMs : I64)
    (priorDeltaSeq : Option U64) (record : AcceptedShare) :
    Except WindowAdvanceError (Option U64) := do
  require (record.shareDifficulty ≠ 0) .nonPositiveDifficulty
  require (record.eligible anchorJobIssuedAtMs) .ineligibleAtNewAnchor
  require (¬ record.eligible window.anchorJobIssuedAtMs) .repeatsPreviouslyEligible
  require (∀ prior ∈ priorSeq, prior.val < record.shareSeq.val) .notAnAppend
  require (∀ prior ∈ priorDeltaSeq, prior.val < record.shareSeq.val) .deltaOrderNotIncreasing
  pure (some record.shareSeq)

def mergeCount (window : PayoutWindow) (added : ℕ) : ℕ :=
  match window.pages.getLast? with
  | none => 0
  | some last => min (window.pageSize - last.records.length) added

/-- The pages with a delta appended: the last page is filled up, the rest is paged. -/
def appendPages (window : PayoutWindow) (delta : List AcceptedShare) (encoded : List (List UInt8)) :
    List WindowPage :=
  let merge := window.mergeCount delta.length
  let records := delta.drop merge
  let fragments := encoded.drop merge
  let merged :=
    match window.pages.getLast? with
    | none => window.pages
    | some last =>
      if merge = 0 then window.pages
      else window.pages.dropLast ++ [WindowPage.fromRetained (last.records ++ delta.take merge)
        (last.fragments ++ encoded.take merge)]
  merged ++ List.zipWith WindowPage.fromRetained (chunks window.pageSize records.length records)
    (chunks window.pageSize fragments.length fragments)

def dropRecords (page : WindowPage) (count : ℕ) : WindowPage :=
  if count = 0 then page
  else WindowPage.fromRetained (page.records.drop count) (page.fragments.drop count)

def advanceByteDelta (oldFragmentLengths : List ℕ) (advanced : PayoutWindow)
    (oldCount expiredRows : ℕ) : WindowAdvanceByteDelta :=
  let droppedOld := min expiredRows oldCount
  let retainedOld := oldCount - droppedOld
  { retainedDropBytes :=
      if droppedOld = 0 then 0
      else if 0 < retainedOld then (oldFragmentLengths.take droppedOld).sum + droppedOld
      else (oldFragmentLengths.take droppedOld).sum + (oldCount - 1)
    appendedItems :=
      if 0 < advanced.recordCount - retainedOld then
        joinFragments (0 < retainedOld) ((advanced.pages.flatMap (·.fragments)).drop retainedOld)
      else [] }

def touchedPages (window : PayoutWindow) (merge firstRetainedPage partialExpired : ℕ) : List ℕ :=
  ((if merge = 0 then [] else [window.pages.length - 1]) ++
    (if 0 < partialExpired ∧ firstRetainedPage < window.pages.length then [firstRetainedPage]
      else [])).dedup

/-- Expire records of the first page that is left: the pages, the difficulty, and how many
records went. -/
def expireFirstPage (windowWeight : U128) (pages : List WindowPage) (total : U128) :
    Except WindowAdvanceError (List WindowPage × U128 × ℕ) :=
  match pages with
  | [] => pure ([], total, 0)
  | firstPage :: rest => do
    let (partialExpired, final) ←
      expireWhile (·.shareDifficulty) windowWeight firstPage.records total
    pure (dropRecords firstPage partialExpired :: rest, final, partialExpired)

def advance (window : PayoutWindow) (delta : List AcceptedShare) (anchorJobIssuedAtMs : I64) :
    Except WindowAdvanceError (PayoutWindow × WindowAdvanceStats × WindowAdvanceByteDelta) := do
  require (window.anchorJobIssuedAtMs.val ≤ anchorJobIssuedAtMs.val) .anchorMovedBackwards
  let priorSeq := (window.pages.getLast?.bind (·.records.getLast?)).map (·.shareSeq)
  let _ ← delta.foldlM (window.checkDelta priorSeq anchorJobIssuedAtMs) none
  let deltaDifficulty ← okOr (Unsigned.checkedSum (delta.map (·.shareDifficulty))) .difficultyOverflow
  let combined ← okOr (window.totalDifficulty.checkedAdd deltaDifficulty) .difficultyOverflow
  let pages := window.appendPages delta (delta.map canonicalShareFragment)
  let (firstRetainedPage, pageTotal) ←
    expireWhile (·.totalDifficulty) window.windowWeight pages combined
  let (retained, totalDifficulty, partialExpired) ←
    expireFirstPage window.windowWeight (pages.drop firstRetainedPage) pageTotal
  let advanced := { window with anchorJobIssuedAtMs, pages := retained, totalDifficulty }
  let expiredRows :=
    ((pages.take firstRetainedPage).map fun page => page.records.length).sum + partialExpired
  let stats := {
    addedRows := delta.length
    expiredRows
    touchedPages := (window.touchedPages (window.mergeCount delta.length) firstRetainedPage
      partialExpired).length }
  pure (advanced, stats,
    advanceByteDelta window.fragmentLengths advanced window.fragmentLengths.length expiredRows)

end PayoutWindow

end QbitPrism
