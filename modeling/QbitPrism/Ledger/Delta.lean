import Mathlib
import QbitPrism.Ledger.Durable

/-!
# Advancing a retained window

`advance` reuses the window of an earlier snapshot: it reads the rows above the retained cutoff (with a
cut, the rows the fresh cut adds), replays the newest-first fold over them and the retained rows, walks
below the first row for a heavier target, and proves the merged rows complete by counting the
eligible rows of their range. Whatever the ledger gained since, an advanced window is the one the full
scan collects.
-/
namespace QbitPrism
open MachineInt Checked List

inductive WindowAcquisition where
  | advanced
  | noPrior
  | emptyPrior
  | tailMismatch
  | anchorRegressed
  | cutoffRegressed
  | deltaTooLarge
  | noEvidence
  | leafChanged
  | marginTooLarge
  | partialWindow
  | witnessChanged
  | countMismatch
  | invariant
  deriving DecidableEq

structure LeafWitness where
  tableoid : ℕ
  inheritsXmin : String
  timeline : String
  deriving DecidableEq

/-- The attached leaves of the ledger, each with the incarnation of its `pg_inherits` tuple, and the
writer's timeline. -/
structure Partitions where
  inheritsXmin : ℕ → Option String
  timeline : String

structure RetainedShares where
  anchorMs : I64
  cutoff : U64
  cut : Option WindowCut
  shares : List AcceptedShare
  leaf : Option LeafWitness

def maxDeltaSlots : ℕ := 64 * 4096
def maxMarginPages : ℕ := 16
def deltaPageRows : ℕ := 4096

/-- One node's slots: those above the retained entry and at or above the first row. -/
def deltaRange (retained high : Option U64) (floor : ℕ) : Option (ℕ × ℕ) :=
  match high with
  | none => none
  | some high =>
    let low := max (retained.elim 0 (·.val)) floor
    if low < high.val then some (low, high.val) else none

def cutDeltaSlots (retained cut : WindowCut) (first : Option U64) : U64 :=
  let floor := first.elim 0 fun first => first.val - 1
  match deltaRange retained.node0 cut.node0 floor, deltaRange retained.node1 cut.node1 floor with
  | none, none => 0
  | some (low, high), none => .wrapping (high - low)
  | none, some (low, high) => .wrapping (high - low)
  | some (low0, high0), some (low1, high1) =>
    let overlap := min high0 high1 - max low0 low1
    .wrapping ((high0 - low0) + (high1 - low1) - overlap)

def RetainedShares.cutoffRefusal (retained : RetainedShares) (cutoff : U64) (cut : Option WindowCut) :
    Option WindowAcquisition :=
  match retained.cut, cut with
  | none, none =>
    if cutoff.val < retained.cutoff.val then some .cutoffRegressed
    else if maxDeltaSlots < cutoff.val - retained.cutoff.val then some .deltaTooLarge
    else none
  | some earlier, some cut =>
    if ¬cut.covers earlier then some .cutoffRegressed
    else if maxDeltaSlots < (cutDeltaSlots earlier cut (retained.shares.head?.map (·.shareSeq))).val then
      some .deltaTooLarge
    else none
  | _, _ => some .cutoffRegressed

def RetainedShares.tailRefusal (retained : RetainedShares) (last : U64) : Option WindowAcquisition :=
  match retained.cut with
  | none => if last ≠ retained.cutoff then some .tailMismatch else none
  | some cut => if cut.top ≠ some last then some .tailMismatch else none

def RetainedShares.refusal (retained : RetainedShares) (anchorMs : I64) (cutoff : U64)
    (cut : Option WindowCut) : Option WindowAcquisition :=
  if anchorMs.val < retained.anchorMs.val then some .anchorRegressed
  else
    (retained.cutoffRefusal cutoff cut).or
      (match retained.shares.head?, retained.shares.getLast? with
      | some first, some last =>
        if first.shareSeq = 0 then some .emptyPrior
        else (retained.tailRefusal last.shareSeq).or (if retained.leaf.isNone then some .noEvidence else none)
      | _, _ => some .emptyPrior)

section Reads
variable (ledger : ShareLedger) (partitions : Partitions) (anchorMs : I64) (cut : Option WindowCut)

/-- The leaf both endpoints lie in, if both are eligible and the range has the expected count. -/
def leafWitness (first last : ℤ) (expectedCount : Option ℕ) : Except LandingError (Option LeafWitness) := do
  bindCut cut
  pure do
    let a ← ledger.rows.find? fun row => row.seq = first
    let b ← ledger.rows.find? fun row => row.seq = last
    let inheritsXmin ← partitions.inheritsXmin a.tableoid
    let count := ((ledger.eligible anchorMs cut).filter fun row => first ≤ row.seq && row.seq ≤ last).length
    if a.tableoid = b.tableoid ∧ a.windowEligible anchorMs cut ∧ b.windowEligible anchorMs cut ∧
        (∀ expected ∈ expectedCount, expected = count) then
      some { tableoid := a.tableoid, inheritsXmin, timeline := partitions.timeline }
    else none

/-- Ascending pages from a cursor up to `last`. -/
def readUp (selected : List ShareRow) (last : ℤ) : ℕ → ℤ → Except LandingError (List AcceptedShare)
  | 0, _ => .error (.refused "more pages than rows")
  | pages + 1, cursor =>
    if cursor < last then do
      bindCut cut
      let rows := pageAbove selected deltaPageRows last cursor
      if rows = [] then pure []
      else do
        let page ← rows.mapM shareFromRow
        let newest ← okOr page.getLast? (.refused "decoded delta page is empty")
        let rest ← readUp selected last pages newest.shareSeq.val
        pure (page ++ rest)
    else pure []

end Reads

/-- The newest shares up to the one at which the target is met, oldest first, and what is left. -/
def newestFold (remaining : U128) : List AcceptedShare → List AcceptedShare × U128
  | [] => ([], remaining)
  | newest :: older =>
    let left := remaining.saturatingSub newest.shareDifficulty
    if left = 0 then ([newest], left)
    else
      let (kept, left) := newestFold left older
      (kept ++ [newest], left)

/-- What a merge keeps, and the target weight still to meet below it. -/
structure DeltaMerge where
  kept : List AcceptedShare
  remaining : U128

def mergeDelta (prior delta : List AcceptedShare) (weight : U128) : DeltaMerge :=
  let (newer, left) := newestFold weight delta.reverse
  if left = 0 then { kept := newer, remaining := left }
  else
    let (older, left) := newestFold left prior.reverse
    { kept := older ++ newer, remaining := left }

/-- Two ascending runs in one; `fuel` bounds their lengths together. -/
def mergeRuns : ℕ → List AcceptedShare → List AcceptedShare → Except LandingError (List AcceptedShare)
  | 0, _, _ => pure []
  | _ + 1, [], [] => pure []
  | fuel + 1, old :: olds, [] => (old :: ·) <$> mergeRuns fuel olds []
  | fuel + 1, [], new :: news => (new :: ·) <$> mergeRuns fuel [] news
  | fuel + 1, old :: olds, new :: news => do
    let seq := new.shareSeq.val
    ensure (old.shareSeq ≠ new.shareSeq) s!"a delta row repeats retained share_seq {seq}"
    if old.shareSeq.val < new.shareSeq.val then (old :: ·) <$> mergeRuns fuel olds (new :: news)
    else (new :: ·) <$> mergeRuns fuel (old :: olds) news

def appendsTo (prior delta : List AcceptedShare) : Bool :=
  match prior.getLast?, delta.head? with
  | some last, some first => decide (last.shareSeq.val < first.shareSeq.val)
  | _, _ => true

def oneRun (prior delta : List AcceptedShare) : Except LandingError (List AcceptedShare) :=
  if appendsTo prior delta then pure (prior ++ delta) else mergeRuns (prior.length + delta.length) prior delta

def mergeCutDelta (prior delta : List AcceptedShare) (weight : U128) : Except LandingError DeltaMerge := do
  let merged ← oneRun prior (SortBy.sortBy shareSeqCmp delta)
  let (kept, left) := newestFold weight merged.reverse
  pure { kept, remaining := left }

/-- Strictly ascending, and crossing exactly at the first share. -/
def windowInvariant (shares : List AcceptedShare) (weight : U128) : Bool :=
  let ascending := decide (shares.IsChain fun a b => a.shareSeq.val < b.shareSeq.val)
  let withoutFirst := remainingAfter weight (shares.drop 1)
  let crossing := shares.head?.any fun first =>
    0 < withoutFirst.val && withoutFirst.saturatingSub first.shareDifficulty == 0
  ascending && crossing

inductive Advance where
  | advanced (shares : List AcceptedShare) (leaf : LeafWitness)
  | rejected (outcome : WindowAcquisition)

section Advance
variable (ledger : ShareLedger) (partitions : Partitions) (anchorMs : I64) (cut : Option WindowCut)

/-- Below the retained first row, until the target is met; a refusal when it is not. -/
def walkMargin (merge : DeltaMerge) (first : ℤ) :
    Except LandingError (Except WindowAcquisition (List AcceptedShare)) := do
  let walk ← RowWalk.down cut (ledger.eligible anchorMs cut) deltaPageRows maxMarginPages
    ⟨[], merge.remaining, first⟩
  pure <| match walk with
    | none => .error .marginTooLarge
    | some walk =>
      if walk.remaining = 0 then .ok (walk.rows.reverse ++ merge.kept) else .error .partialWindow

def proveMerged (merged : List AcceptedShare) (last : ℤ) (witness : LeafWitness) :
    Except LandingError Advance := do
  let first ← okOr merged.head? (.refused "merged window is empty")
  let again ← leafWitness ledger partitions anchorMs cut first.shareSeq.val last none
  if again ≠ some witness then pure (.rejected .witnessChanged)
  else do
    let counted ← leafWitness ledger partitions anchorMs cut first.shareSeq.val last (some merged.length)
    if counted ≠ some witness then pure (.rejected .countMismatch)
    else pure (.advanced merged witness)

/-- The margin, the invariant and the proof both advances end with; `last` of the merged window. -/
def finishAdvance (merge : DeltaMerge) (first : ℤ) (weight : U128) (witness : LeafWitness)
    (last : List AcceptedShare → Except LandingError ℤ) : Except LandingError Advance := do
  match ← walkMargin ledger anchorMs cut merge first with
  | .error outcome => pure (.rejected outcome)
  | .ok merged =>
    if windowInvariant merged weight then do
      let last ← last merged
      proveMerged ledger partitions anchorMs cut merged last witness
    else pure (.rejected .invariant)

/-- One node's rows that the fresh cut adds, at or above the retained first row. -/
def readNode (first : ℤ) (node : ℕ) (retained high : Option U64) :
    Except LandingError (List AcceptedShare) :=
  match high with
  | none => pure []
  | some high => do
    let high ← toI64 high.val
    let low ← toI64 (retained.elim 0 (·.val))
    readUp cut ((ledger.eligible anchorMs cut).filter fun row => row.originNode == node) high.val
      (ledger.rows.length + 1) (max low.val (first - 1))

def advanceInCut (prior : RetainedShares) (weight : U128) (fresh : WindowCut) :
    Except LandingError Advance := do
  let retainedCut ← okOr prior.cut (.refused "a retained dual-writer window has no cut")
  let first ← okOr prior.shares.head? (.refused "index out of bounds")
  let last ← okOr prior.shares.getLast? (.refused "index out of bounds")
  let first ← toI64 first.shareSeq.val
  let last ← toI64 last.shareSeq.val
  let witness ← leafWitness ledger partitions anchorMs (some fresh) first.val last.val none
  match witness with
  | none => pure (.rejected .leafChanged)
  | some witness =>
    if prior.leaf ≠ some witness then pure (.rejected .leafChanged)
    else do
      let delta0 ← readNode ledger anchorMs (some fresh) first.val 0 retainedCut.node0 fresh.node0
      let delta1 ← readNode ledger anchorMs (some fresh) first.val 1 retainedCut.node1 fresh.node1
      let merge ← mergeCutDelta prior.shares (delta0 ++ delta1) weight
      finishAdvance ledger partitions anchorMs (some fresh) merge first.val weight witness fun merged => do
        let last ← okOr merged.getLast? (LandingError.refused "merged window is empty")
        pure last.shareSeq.val

def advance (prior : RetainedShares) (weight : U128) (cutoff : I64) : Except LandingError Advance := do
  let cutoffU64 : U64 ← toUnsigned cutoff
  match prior.refusal anchorMs cutoffU64 cut, cut with
  | some outcome, _ => pure (.rejected outcome)
  | none, some fresh => advanceInCut ledger partitions anchorMs prior weight fresh
  | none, none => do
    let first ← okOr prior.shares.head? (.refused "index out of bounds")
    let first ← toI64 first.shareSeq.val
    match ← leafWitness ledger partitions anchorMs none first.val cutoff.val none with
    | none => pure (.rejected .leafChanged)
    | some witness =>
      if prior.leaf ≠ some witness then pure (.rejected .leafChanged)
      else do
        let low ← toI64 prior.cutoff.val
        let delta ← readUp none (ledger.eligible anchorMs none) cutoff.val (ledger.rows.length + 1) low.val
        finishAdvance ledger partitions anchorMs none (mergeDelta prior.shares delta weight) first.val weight
          witness fun _ => pure cutoff.val

/-- The window of `snapshot_with_admission`: the retained one advanced, or the full scan. -/
def snapshotWindow (prior : Option RetainedShares) (weight : U128) (cutoff : I64) :
    Except LandingError (WindowAcquisition × List AcceptedShare) := do
  let _ ← okOr (cutoff.checkedAdd 1) (LandingError.refused "share sequence exhausted")
  let advanced ← match prior with
    | none => pure (.rejected .noPrior)
    | some prior => advance ledger partitions anchorMs cut prior weight cutoff
  match advanced with
  | .advanced shares _ => pure (.advanced, shares)
  | .rejected outcome => do
    let shares ← fullScan ledger anchorMs cutoff cut weight
    pure (outcome, shares)

end Advance

def Sourced (rows : List ShareRow) (shares : List AcceptedShare) : Prop :=
  ∀ share ∈ shares, ∃ row ∈ rows, shareFromRow row = .ok share

namespace Sourced
variable {rows others : List ShareRow} {shares more : List AcceptedShare}

theorem of_decoded (h : Decoded rows shares) : Sourced rows shares := by
  intro share hshare
  obtain ⟨row, hrow, hdecoded⟩ := exists_of_forall₂ h.flip hshare
  exact ⟨row, hrow, hdecoded⟩

theorem mono (h : Sourced rows shares) (hsub : rows ⊆ others) : Sourced others shares := by
  intro share hshare
  obtain ⟨row, hrow, hdecoded⟩ := h share hshare
  exact ⟨row, hsub hrow, hdecoded⟩

theorem append (h : Sourced rows shares) (hmore : Sourced rows more) : Sourced rows (shares ++ more) :=
  fun share hshare => (mem_append.mp hshare).elim (h share) (hmore share)

theorem subset (h : Sourced rows shares) (hsub : more ⊆ shares) : Sourced rows more :=
  fun share hshare => h share (hsub hshare)

/-- What holds of the rows' sequence numbers holds of the shares'. -/
theorem seq {p : ℤ → Prop} (h : Sourced rows shares) (hrows : ∀ row ∈ rows, p row.seq) :
    ∀ share ∈ shares, p share.shareSeq.val := by
  intro share hshare
  obtain ⟨row, hrow, hdecoded⟩ := h share hshare
  rw [(shareFromRow_decodes hdecoded).seq]
  exact hrows row hrow

theorem seq_filter {p : ℤ → Prop} [DecidablePred p] (h : Sourced (rows.filter fun row => p row.seq) shares) :
    ∀ share ∈ shares, p share.shareSeq.val :=
  h.seq fun _ hrow => of_decide_eq_true (mem_filter.mp hrow).2

end Sourced

theorem decoded_of_count {rows : List ShareRow} (hrows : rows.Pairwise fun a b => a.seq < b.seq)
    {shares : List AcceptedShare} (hshares : shares.Pairwise fun a b => a.shareSeq.val < b.shareSeq.val)
    (hsourced : Sourced rows shares) (hlength : rows.length = shares.length) : Decoded rows shares := by
  have hrowSeqs : (rows.map (·.seq)).Pairwise (· < ·) := pairwise_map.mpr hrows
  have hshareSeqs : (shares.map fun share => (share.shareSeq.val : ℤ)).Pairwise (· < ·) :=
    pairwise_map.mpr (hshares.imp Int.ofNat_lt.mpr)
  have hrowNodup := hrowSeqs.imp ne_of_lt
  have hsubset : (shares.map fun share => (share.shareSeq.val : ℤ)) ⊆ rows.map (·.seq) := by
    intro seq hseq
    obtain ⟨share, hshare, rfl⟩ := mem_map.mp hseq
    obtain ⟨row, hrow, hdecoded⟩ := hsourced share hshare
    exact mem_map.mpr ⟨row, hrow, (shareFromRow_decodes hdecoded).seq.symm⟩
  have hperm := (subperm_of_subset (hshareSeqs.imp ne_of_lt) hsubset).perm_of_length_le (by simp [hlength])
  have hseqs : (shares.map fun share => (share.shareSeq.val : ℤ)) = rows.map (·.seq) :=
    hperm.eq_of_pairwise (fun _ _ _ _ hab hba => absurd hab (lt_asymm hba)) hshareSeqs hrowSeqs
  have hpaired : List.Forall₂ (fun row share => row.seq = (share.shareSeq.val : ℤ)) rows shares := by
    have heq : List.Forall₂ Eq (rows.map (·.seq)) (shares.map fun share => (share.shareSeq.val : ℤ)) := by
      rw [hseqs, List.forall₂_eq_eq_eq]
    exact List.forall₂_map_left_iff.mp (List.forall₂_map_right_iff.mp heq)
  rw [Decoded, List.forall₂_iff_zip]
  refine ⟨hlength, fun {row share} hzip => ?_⟩
  obtain ⟨hrow, hshare⟩ := of_mem_zip hzip
  obtain ⟨source, hsource, hdecoded⟩ := hsourced share hshare
  have hsame : source.seq = row.seq :=
    (shareFromRow_decodes hdecoded).seq.symm.trans ((List.forall₂_iff_zip.mp hpaired).2 hzip).symm
  rw [← inj_on_of_nodup_map hrowNodup hsource hrow hsame]
  exact hdecoded

variable {share : AcceptedShare} {delta merged : List AcceptedShare} {merge : DeltaMerge} {leaf : LeafWitness}
  {next : I64}

section Pieces
variable {ledger : ShareLedger} {partitions : Partitions} {anchorMs cutoff : I64} {cut : Option WindowCut} {weight : U128}

/-- What an advance that is accepted has proved of its window. -/
structure Proved (ledger : ShareLedger) (anchorMs : I64) (cut : Option WindowCut) (weight : U128) (last : ℤ)
    (first : AcceptedShare) (rest : List AcceptedShare) : Prop where
  ascending : (first :: rest).Pairwise fun a b => a.shareSeq.val < b.shareSeq.val
  enough : Crossing.weight AcceptedShare.difficulty rest < weight.val
  reached : weight.val ≤ Crossing.weight AcceptedShare.difficulty (first :: rest)
  count : ((ledger.eligible anchorMs cut).filter fun row =>
    (first.shareSeq.val : ℤ) ≤ row.seq && row.seq ≤ last).length = (first :: rest).length

theorem Proved.fullScan_eq {last : ℤ} {shares : List AcceptedShare}
    (h : Proved ledger anchorMs cut weight last share shares) (hweight : weight ≠ 0) {cursor : I64}
    (hcursor : scanCursor cutoff cut = .ok cursor) (hbind : bindCut cut = .ok ())
    (hsourced : Sourced (ledger.eligible anchorMs cut) (share :: shares))
    (hlast : ∀ s ∈ share :: shares, (s.shareSeq.val : ℤ) ≤ last)
    (hstart : ∀ row ∈ ledger.eligible anchorMs cut, row.seq < cursor.val ↔ row.seq ≤ last) :
    fullScan ledger anchorMs cutoff cut weight = .ok (share :: shares) := by
  have hrange : Sourced ((ledger.eligible anchorMs cut).filter fun row =>
      (share.shareSeq.val : ℤ) ≤ row.seq && row.seq ≤ last) (share :: shares) := by
    intro s hs
    obtain ⟨row, hrow, hdecoded⟩ := hsourced s hs
    have hseq := (shareFromRow_decodes hdecoded).seq
    have hge : share.shareSeq.val ≤ s.shareSeq.val := by
      rcases mem_cons.mp hs with rfl | hlater
      · exact le_rfl
      · exact le_of_lt (rel_of_pairwise_cons h.ascending hlater)
    have hle := hlast s hs
    refine ⟨row, mem_filter.mpr ⟨hrow, ?_⟩, hdecoded⟩
    simp only [Bool.and_eq_true, decide_eq_true_eq]
    omega
  have hdecoded := decoded_of_count (List.Pairwise.filter _ (ledger.eligible_ascending anchorMs cut))
    h.ascending hrange h.count
  have hsplit := Keyset.filter_append_filter (p := fun row : ShareRow => row.seq < share.shareSeq.val)
    (List.Pairwise.filter (fun row : ShareRow => row.seq < cursor.val) (ledger.eligible_ascending anchorMs cut))
    (fun a b hab hb => by simp only [decide_eq_true_eq] at hb ⊢; omega)
  have hnewer : (ledger.scanned anchorMs cut cursor).filter
      (fun row => !decide (row.seq < (share.shareSeq.val : ℤ))) =
      (ledger.eligible anchorMs cut).filter fun row =>
        (share.shareSeq.val : ℤ) ≤ row.seq && row.seq ≤ last := by
    rw [ShareLedger.scanned, filter_filter]
    refine filter_congr fun row hrow => ?_
    rw [Bool.eq_iff_iff]
    simp [hstart row hrow]
  rw [← ShareLedger.scanned, hnewer] at hsplit
  obtain ⟨row, rows, hrow, hrows, hcons⟩ := List.forall₂_cons_right_iff.mp hdecoded
  rw [hcons] at hsplit hdecoded
  refine (fullScan_eq_ok hweight).mpr ⟨cursor, hcursor, hbind, decoded_take_iff.mpr
    ⟨_, row, rows, hsplit.symm, hdecoded, ?_, .inr ?_⟩⟩
  · rw [Decoded.weight hrows]
    exact h.enough
  · rw [hdecoded.weight]
    exact h.reached

theorem fullScan_rows {shares : List AcceptedShare} (h : fullScan ledger anchorMs cutoff cut weight = .ok shares) :
    ∃ cursor rows, scanCursor cutoff cut = .ok cursor ∧ Decoded rows shares ∧
      rows.Sublist (ledger.scanned anchorMs cut cursor) := by
  by_cases hweight : weight = 0
  · obtain ⟨cursor, hcursor, h⟩ := bind_eq_ok.mp h
    dsimp only at h
    rw [@RowWalk.down_of_met _ _ _ ⟨[], weight, cursor.val⟩ _ hweight] at h
    cases h
    exact ⟨cursor, [], hcursor, .nil, nil_sublist _⟩
  · obtain ⟨cursor, hcursor, -, hdecoded⟩ := (fullScan_eq_ok hweight).mp h
    refine ⟨cursor, _, hcursor, Decoded.reverse_iff.mp (by rw [reverse_reverse]; exact hdecoded), ?_⟩
    have hsub := (Crossing.take_initial (w := ShareRow.shareDifficulty) weight.val
      (ledger.scanned anchorMs cut cursor).reverse).sublist
    exact reverse_sublist.mp (by rwa [reverse_reverse])

theorem readUp_decoded {selected : List ShareRow} (hselected : selected.Pairwise fun a b => a.seq < b.seq)
    {last cursor : ℤ} {pages : ℕ} (h : readUp cut selected last pages cursor = .ok delta) :
    Decoded (rowsAbove selected last cursor) delta := by
  have hordered : Keyset.Ordered (· < ·) ShareRow.seq (selected.filter (·.seq ≤ last)) :=
    List.Pairwise.filter _ hselected
  induction pages generalizing cursor delta with
  | zero => cases h
  | succ pages ih =>
    rw [readUp] at h
    split_ifs at h with hcursor
    · obtain ⟨-, -, h⟩ := bind_eq_ok.mp h
      rcases hordered.page_cases (fun _ _ _ => Int.lt_trans) (fun _ _ => Int.lt_asymm) (by decide)
        (rfl : pageAbove selected deltaPageRows last cursor = _) with ⟨hpage, hnil⟩ | ⟨front, row, hpage, hrest⟩
      · rw [if_pos hpage, pure_eq_ok] at h
        rw [rowsAbove, hnil, ← h]
        exact .nil
      · rw [if_neg (by rw [hpage]; simp), hpage] at h
        simp only [bind_eq_ok, okOr_eq_ok, pure_eq_ok] at h
        obtain ⟨page, hdecoded, newest, hnewest, rest, hread, rfl⟩ := h
        replace hdecoded := Decoded.of_mapM.mp hdecoded
        obtain ⟨share, hshare, hseq⟩ := hdecoded.newest
        obtain rfl : share = newest := Option.some.inj (hshare.symm.trans hnewest)
        have hafter := ih hread
        rw [hseq, rowsAbove, hrest] at hafter
        rw [rowsAbove, ← take_append_drop deltaPageRows (Keyset.beyond _ _ _ _), ← pageAbove, hpage]
        exact hdecoded.append hafter
    · rw [pure_eq_ok] at h
      rw [rowsAbove_past hcursor, ← h]
      exact .nil

theorem newestFold_suffix (remaining : U128) (shares : List AcceptedShare) :
    (newestFold remaining shares).1.reverse <+: shares ∧
      (shares ≠ [] → (newestFold remaining shares).1 ≠ []) := by
  induction shares generalizing remaining with
  | nil => exact ⟨prefix_rfl, fun h => absurd rfl h⟩
  | cons newest older ih =>
    unfold newestFold
    dsimp only
    split_ifs with hzero
    · exact ⟨cons_prefix_cons.mpr ⟨rfl, nil_prefix⟩, fun _ => cons_ne_nil _ _⟩
    · refine ⟨?_, fun _ => by simp⟩
      rw [reverse_append]
      exact cons_prefix_cons.mpr ⟨rfl, (ih _).1⟩

theorem windowInvariant_eq_true {shares : List AcceptedShare} (h : windowInvariant shares weight = true) :
    ∃ first rest, shares = first :: rest ∧
      (shares.Pairwise fun a b => a.shareSeq.val < b.shareSeq.val) ∧
      Crossing.weight AcceptedShare.difficulty rest < weight.val ∧
      weight.val ≤ Crossing.weight AcceptedShare.difficulty shares := by
  cases shares with
  | nil => cases h
  | cons first rest =>
    simp only [windowInvariant, drop_succ_cons, drop_zero, List.head?_cons, Option.any_some,
      Bool.and_eq_true, decide_eq_true_eq, beq_iff_eq] at h
    obtain ⟨hchain, henough, hreached⟩ := h
    have hzero := congrArg Unsigned.val hreached
    rw [Unsigned.val_zero] at hzero
    change (remainingAfter weight rest).val - first.difficulty = 0 at hzero
    rw [remainingAfter_val] at henough hzero
    refine ⟨first, rest, rfl, isChain_iff_pairwise.mp hchain, by omega, ?_⟩
    rw [Crossing.weight_cons]
    omega

theorem leafWitness_counted {first last : ℤ} {expected : ℕ} {witness : LeafWitness}
    (h : leafWitness ledger partitions anchorMs cut first last (some expected) = .ok (some witness)) :
    expected = ((ledger.eligible anchorMs cut).filter fun row =>
      first ≤ row.seq && row.seq ≤ last).length := by
  obtain ⟨-, -, h⟩ := bind_eq_ok.mp h
  simp only [pure_eq_ok, Option.bind_eq_bind, Option.bind_eq_some_iff] at h
  obtain ⟨a, -, b, -, inheritsXmin, -, h⟩ := h
  split_ifs at h with hchecks
  exact hchecks.2.2.2 expected rfl

theorem walkMargin_eq_ok {first : ℤ} (hbind : bindCut cut = .ok ())
    (h : walkMargin ledger anchorMs cut merge first = .ok (.ok merged)) :
    ∃ margin, merged = margin ++ merge.kept ∧ Sourced (ledger.eligible anchorMs cut) margin ∧
      ∀ share ∈ margin, (share.shareSeq.val : ℤ) < first := by
  obtain ⟨walk, hwalk, h⟩ := bind_eq_ok.mp h
  rw [pure_eq_ok] at h
  cases walk with
  | none => cases h
  | some walk =>
    dsimp only at h
    split_ifs at h
    cases h
    refine ⟨walk.rows.reverse, rfl, ?_⟩
    by_cases hmet : merge.remaining = 0
    · rw [@RowWalk.down_of_met _ _ _ ⟨[], merge.remaining, first⟩ _ hmet] at hwalk
      cases hwalk
      constructor <;> intro share hshare <;> cases hshare
    · obtain ⟨shares, hdecoded, rfl⟩ := @RowWalk.down_eq_ok _ _ _ ⟨[], merge.remaining, first⟩ hbind
        (ledger.eligible_ascending anchorMs cut) _ (show 0 < deltaPageRows by decide) hmet _ hwalk
      rw [RowWalk.foldl_rows]
      have hbelow : Sourced ((ledger.eligible anchorMs cut).filter (·.seq < first)) ([] ++ shares).reverse := by
        refine ((Sourced.of_decoded hdecoded).mono fun row hrow => ?_).subset (by simp)
        exact mem_reverse.mp ((Crossing.take_initial _ _).subset hrow)
      exact ⟨hbelow.mono filter_sublist.subset, hbelow.seq_filter (p := (· < first))⟩

theorem finishAdvance_advanced {first : ℤ} {witness : LeafWitness} {last : List AcceptedShare → Except LandingError ℤ}
    {shares : List AcceptedShare}
    (h : finishAdvance ledger partitions anchorMs cut merge first weight witness last = .ok (.advanced shares leaf)) :
    walkMargin ledger anchorMs cut merge first = .ok (.ok shares) ∧
      ∃ newest oldest rest, last shares = .ok newest ∧ shares = oldest :: rest ∧
        Proved ledger anchorMs cut weight newest oldest rest := by
  obtain ⟨walked, hwalked, h⟩ := bind_eq_ok.mp h
  cases walked with
  | error outcome => cases h
  | ok merged =>
    dsimp only at h
    split_ifs at h with hinvariant
    swap
    · cases h
    obtain ⟨newest, hnewest, h⟩ := bind_eq_ok.mp h
    simp only [proveMerged, bind_eq_ok, okOr_eq_ok] at h
    obtain ⟨oldest, holdest, again, -, h⟩ := h
    split_ifs at h
    · cases h
    obtain ⟨counted, hcounted, h⟩ := bind_eq_ok.mp h
    split_ifs at h with hwitness
    · cases h
    obtain ⟨rfl, rfl⟩ : merged = shares ∧ witness = leaf := by
      cases h
      exact ⟨rfl, rfl⟩
    rw [not_not.mp hwitness] at hcounted
    have hcount := leafWitness_counted hcounted
    obtain ⟨first', rest, rfl, hascending, henough, hreached⟩ := windowInvariant_eq_true hinvariant
    obtain rfl : first' = oldest := Option.some.inj holdest
    exact ⟨hwalked, newest, first', rest, hnewest, rfl, hascending, henough, hreached, hcount.symm⟩

theorem mem_mergeDelta {prior : List AcceptedShare} : (mergeDelta prior delta weight).kept ⊆ prior ++ delta := by
  have hfold : ∀ remaining (shares : List AcceptedShare),
      (newestFold remaining shares.reverse).1 ⊆ shares := by
    intro remaining shares share hshare
    have hnewest := (newestFold_suffix remaining shares.reverse).1.subset (mem_reverse.mpr hshare)
    exact mem_reverse.mp hnewest
  unfold mergeDelta
  dsimp only
  split_ifs
  · exact subset_append_of_subset_right _ (hfold _ _)
  · exact append_subset.mpr ⟨subset_append_of_subset_left _ (hfold _ _),
      subset_append_of_subset_right _ (hfold _ _)⟩

theorem eligible_mono {earlier : ShareLedger} {earlierMs : I64} {earlierCut : Option WindowCut}
    (hrows : earlier.rows ⊆ ledger.rows) (hanchor : earlierMs.val ≤ anchorMs.val)
    (hcut : ∀ row : ShareRow, row.cutClause earlierCut → row.cutClause cut) :
    earlier.eligible earlierMs earlierCut ⊆ ledger.eligible anchorMs cut := by
  intro row hrow
  obtain ⟨hmem, helig⟩ := mem_filter.mp hrow
  simp only [ShareRow.windowEligible, ShareRow.anchored, Bool.and_eq_true, decide_eq_true_eq] at helig
  obtain ⟨⟨⟨haccepted, hacceptedAt⟩, hissued⟩, hclause⟩ := helig
  refine mem_filter.mpr ⟨hrows hmem, ?_⟩
  simp only [ShareRow.windowEligible, ShareRow.anchored, Bool.and_eq_true, decide_eq_true_eq]
  exact ⟨⟨⟨haccepted, by omega⟩, by omega⟩, hcut row hclause⟩

end Pieces

/-- The retained window is what a full scan collected earlier, over some of the rows. -/
def RetainedShares.Retains (prior : RetainedShares) (ledger : ShareLedger) : Prop :=
  ∃ (earlier : ShareLedger) (cutoff : I64) (weight : U128), earlier.rows ⊆ ledger.rows ∧
    cutoff.val = prior.cutoff.val ∧
    fullScan earlier prior.anchorMs cutoff prior.cut weight = .ok prior.shares

theorem refusal_eq_none {prior : RetainedShares} {anchorMs : I64} {cutoff : U64} {cut : Option WindowCut}
    (h : prior.refusal anchorMs cutoff cut = none) :
    prior.anchorMs.val ≤ anchorMs.val ∧ prior.cutoffRefusal cutoff cut = none ∧
      ∃ first last, prior.shares.head? = some first ∧ prior.shares.getLast? = some last ∧
        first.shareSeq ≠ 0 ∧ prior.tailRefusal last.shareSeq = none := by
  unfold RetainedShares.refusal at h
  by_cases hanchor : anchorMs.val < prior.anchorMs.val
  · rw [if_pos hanchor] at h
    cases h
  · rw [if_neg hanchor, Option.or_eq_none_iff] at h
    obtain ⟨hcutoff, h⟩ := h
    refine ⟨Int.not_lt.mp hanchor, hcutoff, ?_⟩
    split at h
    · rename_i first last hfirst hlast
      split_ifs at h with hzero
      all_goals
        rw [Option.or_eq_none_iff] at h
        exact ⟨first, last, hfirst, hlast, hzero, h.1⟩
    · cases h

section Single
variable {ledger : ShareLedger} {partitions : Partitions} {anchorMs cutoff : I64} {prior : RetainedShares}

theorem RetainedShares.Retains.sourced (h : prior.Retains ledger) (hcut : prior.cut = none)
    (hanchor : prior.anchorMs.val ≤ anchorMs.val) :
    Sourced (ledger.eligible anchorMs none) prior.shares ∧
      ∀ share ∈ prior.shares, share.shareSeq.val ≤ prior.cutoff.val := by
  obtain ⟨earlier, cutoff, weight, hrows, hcutoff, hscan⟩ := h
  rw [hcut] at hscan
  obtain ⟨cursor, rows, hcursor, hdecoded, hsub⟩ := fullScan_rows hscan
  have hnext := Signed.checkedAdd_eq_some.mp (okOr_eq_ok.mp hcursor)
  have hone : (1 : I64).val = 1 := rfl
  have hscanned := (Sourced.of_decoded hdecoded).mono hsub.subset
  refine ⟨hscanned.mono fun row hrow => ?_, fun share hshare => ?_⟩
  · exact eligible_mono hrows hanchor (fun _ hclause => hclause) (mem_filter.mp hrow).1
  · have hlt := hscanned.seq_filter (p := (· < cursor.val)) share hshare
    omega

theorem cutoffRefusal_single {cutoff : U64} (h : prior.cutoffRefusal cutoff none = none) :
    prior.cut = none ∧ prior.cutoff.val ≤ cutoff.val := by
  unfold RetainedShares.cutoffRefusal at h
  cases hcut : prior.cut with
  | some cut =>
    rw [hcut] at h
    cases h
  | none =>
    rw [hcut] at h
    dsimp only at h
    split_ifs at h with hlt
    exact ⟨rfl, Nat.le_of_not_lt hlt⟩

theorem advance_none_eq_fullScan (hretains : prior.Retains ledger) {weight : U128} (hweight : weight ≠ 0)
    (hnext : cutoff.checkedAdd 1 = some next) {shares : List AcceptedShare}
    (h : advance ledger partitions anchorMs none prior weight cutoff = .ok (.advanced shares leaf)) :
    fullScan ledger anchorMs cutoff none weight = .ok shares := by
  obtain ⟨cutoffU64, hcutoffU64, h⟩ := bind_eq_ok.mp h
  rw [toUnsigned_eq_ok] at hcutoffU64
  cases hrefusal : prior.refusal anchorMs cutoffU64 none with
  | some outcome =>
    rw [hrefusal] at h
    cases h
  | none =>
    rw [hrefusal] at h
    obtain ⟨hanchor, hcutoffRefusal, first, last, hfirst, -, -, -⟩ := refusal_eq_none hrefusal
    obtain ⟨hcut, hcutoff⟩ := cutoffRefusal_single hcutoffRefusal
    obtain ⟨hprior, hpriorBound⟩ := hretains.sourced hcut hanchor
    rw [hfirst, okOr_some] at h
    rw [ok_bind] at h
    obtain ⟨signedFirst, hsignedFirst, h⟩ := bind_eq_ok.mp h
    obtain ⟨witnessed, -, h⟩ := bind_eq_ok.mp h
    rw [toI64_eq_ok] at hsignedFirst
    cases witnessed with
    | none => cases h
    | some witness =>
      dsimp only at h
      split_ifs at h
      · cases h
      obtain ⟨low, hlow, h⟩ := bind_eq_ok.mp h
      obtain ⟨delta, hdelta, h⟩ := bind_eq_ok.mp h
      obtain ⟨hwalk, newest, oldest, rest, hnewest, rfl, hproved⟩ := finishAdvance_advanced h
      cases hnewest
      obtain ⟨margin, hmerged, hmargin, hmarginBound⟩ := walkMargin_eq_ok rfl hwalk
      have hread := readUp_decoded (ledger.eligible_ascending anchorMs none) hdelta
      have hdeltaRows : Sourced ((ledger.eligible anchorMs none).filter (·.seq ≤ cutoff.val)) delta :=
        (Sourced.of_decoded hread).mono filter_sublist.subset
      have hnextVal := Signed.checkedAdd_eq_some.mp hnext
      have hone : (1 : I64).val = 1 := rfl
      refine hproved.fullScan_eq hweight (by rw [scanCursor, hnext, okOr_some]) rfl ?_ ?_
        fun row _ => by rw [hnextVal, hone]; exact Int.lt_add_one_iff
      · rw [hmerged]
        exact hmargin.append ((hprior.append (hdeltaRows.mono filter_sublist.subset)).subset mem_mergeDelta)
      · rw [hmerged]
        intro share hshare
        rcases mem_append.mp hshare with hbelow | hkept
        · have hlt := hmarginBound share hbelow
          have hle := hpriorBound first (mem_of_mem_head? hfirst)
          omega
        · rcases mem_append.mp (mem_mergeDelta hkept) with hold | hnew
          · have hle := hpriorBound share hold
            omega
          · exact hdeltaRows.seq_filter (p := (· ≤ cutoff.val)) share hnew

end Single

def Rising (shares : List AcceptedShare) : Prop := shares.Pairwise fun a b => a.shareSeq.val ≤ b.shareSeq.val

theorem Rising.of_map_cons {others : List AcceptedShare} {tail : Except LandingError (List AcceptedShare)}
    (h : (share :: ·) <$> tail = .ok merged) (htail : ∀ rest, tail = .ok rest → rest.Perm others ∧ Rising rest)
    (hle : ∀ other ∈ others, share.shareSeq.val ≤ other.shareSeq.val) :
    merged.Perm (share :: others) ∧ Rising merged := by
  cases tail with
  | error e => cases h
  | ok rest =>
    cases h
    obtain ⟨hperm, hrising⟩ := htail rest rfl
    exact ⟨hperm.cons share,
      pairwise_cons.mpr ⟨fun other hother => hle other (hperm.mem_iff.mp hother), hrising⟩⟩

theorem mergeRuns_eq_ok {fuel : ℕ} {olds news : List AcceptedShare} (hfuel : olds.length + news.length ≤ fuel)
    (holds : Rising olds) (hnews : Rising news) (h : mergeRuns fuel olds news = .ok merged) :
    merged.Perm (olds ++ news) ∧ Rising merged := by
  induction fuel generalizing olds news merged with
  | zero =>
    obtain ⟨rfl, rfl⟩ : olds = [] ∧ news = [] := by
      constructor <;> apply length_eq_zero_iff.mp <;> omega
    cases h
    exact ⟨.nil, .nil⟩
  | succ fuel ih =>
    cases olds with
    | nil =>
      cases news with
      | nil =>
        cases h
        exact ⟨.nil, .nil⟩
      | cons new news =>
        obtain ⟨hnew, hrest⟩ := pairwise_cons.mp hnews
        exact Rising.of_map_cons h (fun rest => ih (by simpa using hfuel) .nil hrest) hnew
    | cons old olds =>
      obtain ⟨hold, hrestOld⟩ := pairwise_cons.mp holds
      cases news with
      | nil =>
        refine Rising.of_map_cons h (fun rest => ih (by simpa using hfuel) hrestOld .nil) ?_
        simpa using hold
      | cons new news =>
        obtain ⟨hnew, hrestNew⟩ := pairwise_cons.mp hnews
        rw [mergeRuns] at h
        obtain ⟨-, -, h⟩ := bind_eq_ok.mp h
        simp only [length_cons] at hfuel
        split_ifs at h with hlt
        · refine Rising.of_map_cons h (fun rest => ih (by simp only [length_cons]; omega) hrestOld
            hnews) fun other hother => ?_
          rcases mem_append.mp hother with hmem | hmem
          · exact hold other hmem
          · rcases mem_cons.mp hmem with rfl | hlater
            · exact hlt.le
            · exact hlt.le.trans (hnew other hlater)
        · have hmerged := Rising.of_map_cons h
            (fun rest => ih (by simp only [length_cons]; omega) holds hrestNew) fun other hother => ?_
          · exact ⟨hmerged.1.trans perm_middle.symm, hmerged.2⟩
          · rcases mem_append.mp hother with hmem | hmem
            · rcases mem_cons.mp hmem with rfl | hlater
              · exact Nat.le_of_not_lt hlt
              · exact (Nat.le_of_not_lt hlt).trans (hold other hlater)
            · exact hnew other hmem

theorem Rising.le_getLast {shares : List AcceptedShare} (h : Rising shares) {last : AcceptedShare}
    (hlast : shares.getLast? = some last) : ∀ share ∈ shares, share.shareSeq.val ≤ last.shareSeq.val := by
  obtain ⟨front, rfl⟩ := List.getLast?_eq_some_iff.mp hlast
  intro share hshare
  rcases mem_append.mp hshare with hfront | hone
  · exact (pairwise_append.mp h).2.2 share hfront last mem_cons_self
  · rw [mem_singleton.mp hone]

theorem rising_append {prior : List AcceptedShare} (hprior : Rising prior) (hdelta : Rising delta)
    (happends : appendsTo prior delta) : Rising (prior ++ delta) := by
  refine pairwise_append.mpr ⟨hprior, hdelta, fun old hold new hnew => ?_⟩
  unfold appendsTo at happends
  split at happends
  · rename_i last first hlast hfirst
    have hlt := of_decide_eq_true happends
    have hle := hprior.le_getLast hlast old hold
    obtain ⟨rest, rfl⟩ := List.head?_eq_some_iff.mp hfirst
    rcases mem_cons.mp hnew with rfl | hlater
    · omega
    · have := (pairwise_cons.mp hdelta).1 new hlater
      omega
  · rename_i hnone
    exact absurd (List.head?_eq_some_head (ne_nil_of_mem hnew))
      (hnone _ _ (List.getLast?_eq_some_getLast (ne_nil_of_mem hold)))

theorem mergeCutDelta_eq_ok {prior : List AcceptedShare} {weight : U128} (hprior : Rising prior)
    (h : mergeCutDelta prior delta weight = .ok merge) :
    ∃ merged older, merged.Perm (prior ++ delta) ∧ Rising merged ∧ merged = older ++ merge.kept ∧
      (merged ≠ [] → merge.kept ≠ []) := by
  have hsorted : Rising (SortBy.sortBy shareSeqCmp delta) :=
    (SortBy.sortBy_pairwise shareSeqCmp delta).imp le_shareSeqCmp.mp
  have hperm := SortBy.sortBy_perm shareSeqCmp delta
  rw [mergeCutDelta] at h
  obtain ⟨merged, hmerged, h⟩ := bind_eq_ok.mp h
  have hrising : merged.Perm (prior ++ SortBy.sortBy shareSeqCmp delta) ∧ Rising merged := by
    unfold oneRun at hmerged
    split_ifs at hmerged with happends
    · cases hmerged
      exact ⟨.refl _, rising_append hprior hsorted happends⟩
    · exact mergeRuns_eq_ok le_rfl hprior hsorted hmerged
  obtain rfl : _ = merge := Except.ok.inj h
  obtain ⟨hsuffix, hne⟩ := newestFold_suffix weight merged.reverse
  obtain ⟨older, holder⟩ := hsuffix
  refine ⟨merged, older.reverse, hrising.1.trans (hperm.append_left prior), hrising.2, ?_, ?_⟩
  · have hmergedEq := congrArg List.reverse holder
    rw [reverse_append, reverse_reverse, reverse_reverse] at hmergedEq
    exact hmergedEq.symm
  · intro hmergedNe
    exact hne (by simpa using hmergedNe)

theorem ShareRow.atMost_of_entryLe {row : ShareRow} {entry above : Option U64}
    (hle : WindowCut.entryLe entry above) (h : row.atMost entry) : row.atMost above := by
  obtain ⟨value, rfl, hvalue⟩ := atMost_eq_true.mp h
  cases above with
  | none => cases hle
  | some high =>
    have hhigh : value.val ≤ high.val := of_decide_eq_true hle
    exact atMost_eq_true.mpr ⟨high, rfl, by omega⟩

section Dual
variable {ledger : ShareLedger} {partitions : Partitions} {anchorMs cutoff : I64} {prior : RetainedShares}
variable {fresh retained : WindowCut}

theorem cutClause_of_covers (h : fresh.covers retained) (row : ShareRow)
    (hrow : row.cutClause (some retained)) : row.cutClause (some fresh) := by
  obtain ⟨h0, h1⟩ := Bool.and_eq_true_iff.mp h
  simp only [ShareRow.cutClause, Bool.or_eq_true, Bool.and_eq_true] at hrow ⊢
  rcases hrow with ⟨hnode, hle⟩ | ⟨hnode, hle⟩
  · exact .inl ⟨hnode, ShareRow.atMost_of_entryLe h0 hle⟩
  · exact .inr ⟨hnode, ShareRow.atMost_of_entryLe h1 hle⟩

theorem Decoded.rising {rows : List ShareRow} {shares : List AcceptedShare} (h : Decoded rows shares)
    (hrows : rows.Pairwise fun a b => a.seq < b.seq) : Rising shares := by
  have hseqs : (rows.map (·.seq)).Pairwise (· < ·) := pairwise_map.mpr hrows
  rw [← h.seqs, pairwise_map] at hseqs
  exact hseqs.imp fun hlt => by omega

theorem RetainedShares.Retains.covered (h : prior.Retains ledger) (hcut : prior.cut = some retained)
    (hcovers : fresh.covers retained) (hanchor : prior.anchorMs.val ≤ anchorMs.val) :
    Sourced (ledger.eligible anchorMs (some fresh)) prior.shares ∧ Rising prior.shares := by
  obtain ⟨earlier, cutoff, weight, hrows, -, hscan⟩ := h
  rw [hcut] at hscan
  obtain ⟨cursor, rows, -, hdecoded, hsub⟩ := fullScan_rows hscan
  have heligible := hsub.trans filter_sublist
  constructor
  · exact (Sourced.of_decoded hdecoded).mono fun row hrow =>
      eligible_mono hrows hanchor (cutClause_of_covers hcovers) (heligible.subset hrow)
  · exact hdecoded.rising ((earlier.eligible_ascending prior.anchorMs (some retained)).sublist heligible)

theorem cutoffRefusal_dual {cutoff : U64} (h : prior.cutoffRefusal cutoff (some fresh) = none) :
    ∃ retained, prior.cut = some retained ∧ fresh.covers retained := by
  unfold RetainedShares.cutoffRefusal at h
  cases hcut : prior.cut with
  | none =>
    rw [hcut] at h
    cases h
  | some retained =>
    rw [hcut] at h
    dsimp only at h
    split_ifs at h with hcovers
    exact ⟨retained, rfl, hcovers⟩

theorem tailRefusal_dual {last : U64} (hcut : prior.cut = some retained)
    (h : prior.tailRefusal last = none) : retained.top = some last := by
  unfold RetainedShares.tailRefusal at h
  rw [hcut] at h
  dsimp only at h
  split_ifs at h with htop
  exact not_not.mp htop

theorem readNode_eq_ok {first : ℤ} (hfirst : 0 < first) {node : ℕ} {entry high : Option U64}
    (h : readNode ledger anchorMs (some fresh) first node entry high = .ok delta) :
    Sourced (ledger.eligible anchorMs (some fresh)) delta ∧
      ∀ top, high = some top → first ≤ top.val →
        (∃ row ∈ ledger.eligible anchorMs (some fresh), row.originNode = node ∧ row.seq = top.val) →
        (∃ share ∈ delta, share.shareSeq.val = top.val) ∨ ∃ seq, entry = some seq ∧ top.val ≤ seq.val := by
  cases high with
  | none =>
    cases h
    constructor
    · intro share hshare
      cases hshare
    · intro top htop
      cases htop
  | some high =>
    obtain ⟨signedHigh, hhigh, h⟩ := bind_eq_ok.mp h
    obtain ⟨low, hlow, h⟩ := bind_eq_ok.mp h
    rw [toI64_eq_ok] at hhigh hlow
    have hdecoded := readUp_decoded (List.Pairwise.filter _ (ledger.eligible_ascending anchorMs (some fresh))) h
    constructor
    · refine (Sourced.of_decoded hdecoded).mono fun row hrow => ?_
      exact (mem_filter.mp (mem_filter.mp (mem_filter.mp hrow).1).1).1
    · rintro top ⟨⟩ hfloor ⟨row, hrow, hnode, hseq⟩
      by_cases hadded : low.val < high.val
      · refine .inl ?_
        have hread : row ∈ rowsAbove ((ledger.eligible anchorMs (some fresh)).filter fun row => row.originNode == node)
            signedHigh.val (max low.val (first - 1)) := by
          refine mem_filter.mpr ⟨mem_filter.mpr ⟨mem_filter.mpr ⟨hrow, beq_iff_eq.mpr hnode⟩,
            decide_eq_true ?_⟩, decide_eq_true ?_⟩
          · omega
          · exact max_lt (by omega) (by omega)
        obtain ⟨share, hshare, hshareRow⟩ := exists_of_forall₂ hdecoded hread
        have hshareSeq := (shareFromRow_decodes hshareRow).seq
        exact ⟨share, hshare, by omega⟩
      · refine .inr ?_
        cases entry with
        | none =>
          have hzero : low.val = 0 := hlow
          omega
        | some seq =>
          have hentry : low.val = seq.val := hlow
          exact ⟨seq, rfl, by omega⟩

theorem exists_share_top {prior delta0 delta1 : List AcceptedShare} {top : U64} {first last : AcceptedShare}
    (hentries : ∀ node entry, fresh.get node = some (some entry) →
      ∃ row ∈ ledger.eligible anchorMs (some fresh), row.originNode = node ∧ row.seq = entry.val)
    (htop : fresh.top = some top) (hfirst : 0 < first.shareSeq.val) (hfloor : first.shareSeq.val ≤ top.val)
    (hlast : last ∈ prior) (hlastTop : last.shareSeq.val ≤ top.val) (htail : retained.top = some last.shareSeq)
    (h0 : readNode ledger anchorMs (some fresh) first.shareSeq.val 0 retained.node0 fresh.node0 = .ok delta0)
    (h1 : readNode ledger anchorMs (some fresh) first.shareSeq.val 1 retained.node1 fresh.node1 = .ok delta1) :
    ∃ share ∈ prior ++ (delta0 ++ delta1), share.shareSeq.val = top.val := by
  have hretained : ∀ seq, retained.node0 = some seq ∨ retained.node1 = some seq → top.val ≤ seq.val →
      ∃ share ∈ prior ++ (delta0 ++ delta1), share.shareSeq.val = top.val := by
    intro seq hseq hle
    obtain ⟨highest, hhighest, hseqLe⟩ := WindowCut.le_top hseq
    obtain rfl : highest = last.shareSeq := Option.some.inj (hhighest.symm.trans htail)
    exact ⟨last, mem_append_left _ hlast, by omega⟩
  rcases WindowCut.top_mem htop with hnode | hnode
  · have hread := (readNode_eq_ok (by omega) h0).2 top hnode (by omega)
      (hentries 0 top (congrArg some hnode))
    rcases hread with ⟨share, hshare, hseq⟩ | ⟨seq, hseq, hle⟩
    · exact ⟨share, mem_append_right _ (mem_append_left _ hshare), hseq⟩
    · exact hretained seq (.inl hseq) hle
  · have hread := (readNode_eq_ok (by omega) h1).2 top hnode (by omega)
      (hentries 1 top (congrArg some hnode))
    rcases hread with ⟨share, hshare, hseq⟩ | ⟨seq, hseq, hle⟩
    · exact ⟨share, mem_append_right _ (mem_append_right _ hshare), hseq⟩
    · exact hretained seq (.inr hseq) hle

/-- Each entry of a cut is an eligible row of its node, at or below the cutoff read with it. -/
def WindowCut.EntersAt (cut : WindowCut) (ledger : ShareLedger) (anchorMs cutoff : I64) : Prop :=
  ∀ node entry, cut.get node = some (some entry) → entry.val ≤ cutoff.val ∧
    ∃ row ∈ ledger.rows, row.anchored anchorMs ∧ row.originNode = node ∧ row.seq = entry.val

theorem WindowCut.EntersAt.eligible (h : fresh.EntersAt ledger anchorMs cutoff) {node : ℕ} {entry : U64}
    (hentry : fresh.get node = some (some entry)) :
    ∃ row ∈ ledger.eligible anchorMs (some fresh), row.originNode = node ∧ row.seq = entry.val := by
  obtain ⟨-, row, hrow, hanchored, hnode, hseq⟩ := h node entry hentry
  refine ⟨row, mem_filter.mpr ⟨hrow, ?_⟩, hnode, hseq⟩
  have hle : row.shareSeq.val ≤ entry.val := le_of_eq hseq
  unfold WindowCut.get at hentry
  split at hentry
  · simp [ShareRow.windowEligible, hanchored, ShareRow.cutClause, hnode, ShareRow.atMost, Option.some.inj hentry, hle]
  · simp [ShareRow.windowEligible, hanchored, ShareRow.cutClause, hnode, ShareRow.atMost, Option.some.inj hentry, hle]
  · cases hentry

theorem scanCursor_top {top : U64} (hnext : cutoff.checkedAdd 1 = some next) (htop : fresh.top = some top)
    (hle : top.val ≤ cutoff.val) :
    ∃ cursor, scanCursor cutoff (some fresh) = .ok cursor ∧ cursor.val = top.val + 1 := by
  have hnextVal := Signed.checkedAdd_eq_some.mp hnext
  have hone : (1 : I64).val = 1 := rfl
  have hupper := next.upper
  obtain ⟨signed, hsigned⟩ : ∃ signed : I64, signed.val = top.val := ⟨⟨top.val, by omega, by omega⟩, rfl⟩
  refine ⟨Signed.wrapping (signed.val + 1), ?_, ?_⟩
  · rw [scanCursor, hnext, okOr_some, ok_bind, htop]
    simp only [toI64_eq_ok.mpr hsigned, ok_bind]
    rfl
  · rw [Signed.wrapping_val (by omega) (by omega), hsigned]

theorem Sourced.le_top {shares : List AcceptedShare} {top : U64}
    (h : Sourced (ledger.eligible anchorMs (some fresh)) shares) (htop : fresh.top = some top) :
    ∀ share ∈ shares, share.shareSeq.val ≤ top.val := by
  have hrows : ∀ row ∈ ledger.eligible anchorMs (some fresh), row.seq ≤ top.val := by
    intro row hrow
    obtain ⟨other, hother, hle⟩ := eligible_le_top hrow
    rwa [Option.some.inj (hother.symm.trans htop)] at hle
  exact fun share hshare => Int.ofNat_le.mp (h.seq (p := (· ≤ (top.val : ℤ))) hrows share hshare)

theorem advanceInCut_eq_fullScan (hretains : prior.Retains ledger) {weight : U128} (hweight : weight ≠ 0)
    (hnext : cutoff.checkedAdd 1 = some next) (hentries : fresh.EntersAt ledger anchorMs cutoff) {cutoffU64 : U64}
    (hrefusal : prior.refusal anchorMs cutoffU64 (some fresh) = none) {shares : List AcceptedShare}
    (h : advanceInCut ledger partitions anchorMs prior weight fresh = .ok (.advanced shares leaf)) :
    fullScan ledger anchorMs cutoff (some fresh) weight = .ok shares := by
  obtain ⟨hanchor, hcutoffRefusal, first, last, hfirst, hlast, hnonzero, htailRefusal⟩ := refusal_eq_none hrefusal
  obtain ⟨retained, hcut, hcovers⟩ := cutoffRefusal_dual hcutoffRefusal
  have htail := tailRefusal_dual hcut htailRefusal
  obtain ⟨hprior, hrising⟩ := hretains.covered hcut hcovers hanchor
  have hfirstMem := mem_of_mem_head? hfirst
  have hlastMem := mem_of_getLast? hlast
  obtain ⟨row, hrow, -⟩ := hprior first hfirstMem
  obtain ⟨top, htop, -⟩ := eligible_le_top hrow
  rw [advanceInCut, hcut, hfirst, hlast, okOr_some, okOr_some, okOr_some, ok_bind, ok_bind, ok_bind] at h
  obtain ⟨signedFirst, hsignedFirst, h⟩ := bind_eq_ok.mp h
  obtain ⟨signedLast, -, h⟩ := bind_eq_ok.mp h
  obtain ⟨witnessed, hwitnessed, h⟩ := bind_eq_ok.mp h
  rw [toI64_eq_ok] at hsignedFirst
  obtain ⟨⟨⟩, hbind, -⟩ := bind_eq_ok.mp hwitnessed
  cases witnessed with
  | none => cases h
  | some witness =>
    dsimp only at h
    split_ifs at h
    · cases h
    obtain ⟨delta0, hdelta0, h⟩ := bind_eq_ok.mp h
    obtain ⟨delta1, hdelta1, h⟩ := bind_eq_ok.mp h
    obtain ⟨merge, hmerge, h⟩ := bind_eq_ok.mp h
    obtain ⟨hwalk, newest, oldest, rest, hnewest, rfl, hproved⟩ := finishAdvance_advanced h
    obtain ⟨margin, hshares, hmargin, -⟩ := walkMargin_eq_ok hbind hwalk
    obtain ⟨merged, older, hperm, hmergedRising, hmergedEq, hkept⟩ := mergeCutDelta_eq_ok hrising hmerge
    rw [hsignedFirst] at hdelta0 hdelta1
    have hpositive : 0 < first.shareSeq.val :=
      Nat.pos_of_ne_zero fun h0 => hnonzero (Unsigned.ext (h0.trans Unsigned.val_zero.symm))
    have hmergedSourced : Sourced (ledger.eligible anchorMs (some fresh)) merged := by
      refine Sourced.subset (hprior.append (Sourced.append ?_ ?_)) hperm.subset
      · exact (readNode_eq_ok (by omega) hdelta0).1
      · exact (readNode_eq_ok (by omega) hdelta1).1
    have hsourced : Sourced (ledger.eligible anchorMs (some fresh)) (oldest :: rest) := by
      rw [hshares]
      refine hmargin.append (hmergedSourced.subset ?_)
      rw [hmergedEq]
      exact subset_append_right _ _
    -- The merged window ends at the cut's highest entry.
    have hends : newest = top.val := by
      obtain ⟨share, hshare, hseq⟩ := exists_share_top (fun _ _ => hentries.eligible) htop hpositive
        (hprior.le_top htop first hfirstMem) hlastMem (hprior.le_top htop last hlastMem) htail hdelta0 hdelta1
      have hin := hperm.mem_iff.mpr hshare
      obtain ⟨newestShare, hnewestShare, hnewestEq⟩ := bind_eq_ok.mp hnewest
      rw [okOr_eq_ok] at hnewestShare
      rw [pure_eq_ok] at hnewestEq
      have hmergedLast : merged.getLast? = some newestShare := by
        rw [hshares, List.getLast?_append_of_ne_nil _ (hkept (ne_nil_of_mem hin))] at hnewestShare
        rw [hmergedEq, List.getLast?_append_of_ne_nil _ (hkept (ne_nil_of_mem hin)), hnewestShare]
      have hge := hmergedRising.le_getLast hmergedLast share hin
      have hle := hmergedSourced.le_top htop newestShare (mem_of_getLast? hmergedLast)
      omega
    have htopCutoff : (top.val : ℤ) ≤ cutoff.val := by
      rcases WindowCut.top_mem htop with hnode | hnode
      · exact (hentries 0 top (congrArg some hnode)).1
      · exact (hentries 1 top (congrArg some hnode)).1
    obtain ⟨cursor, hcursor, hcursorVal⟩ := scanCursor_top hnext htop htopCutoff
    refine hproved.fullScan_eq hweight hcursor hbind hsourced ?_ ?_
    · rw [hends]
      exact fun share hshare => Int.ofNat_le.mpr (hsourced.le_top htop share hshare)
    · intro row _
      rw [hcursorVal, hends]
      exact Int.lt_add_one_iff

end Dual

/-- An advance that is accepted gives the window of the full scan, whatever the ledger gained since the
retained one was collected; and so does the snapshot, which scans when an advance is rejected. -/
theorem advance_eq_fullScan (ledger : ShareLedger) (partitions : Partitions) (anchorMs cutoff : I64)
    (cut : Option WindowCut) (hcut : ∀ fresh ∈ cut, fresh.EntersAt ledger anchorMs cutoff)
    (prior : RetainedShares) (hretains : prior.Retains ledger) (weight : U128) (hweight : weight ≠ 0) :
    (∀ shares leaf, (cutoff.checkedAdd 1).isSome →
      advance ledger partitions anchorMs cut prior weight cutoff = .ok (.advanced shares leaf) →
      fullScan ledger anchorMs cutoff cut weight = .ok shares) ∧
    ∀ outcome shares,
      snapshotWindow ledger partitions anchorMs cut (some prior) weight cutoff = .ok (outcome, shares) →
      fullScan ledger anchorMs cutoff cut weight = .ok shares := by
  have hadvanced : ∀ shares leaf, (cutoff.checkedAdd 1).isSome →
      advance ledger partitions anchorMs cut prior weight cutoff = .ok (.advanced shares leaf) →
      fullScan ledger anchorMs cutoff cut weight = .ok shares := by
    intro shares leaf hsome h
    obtain ⟨next, hnext⟩ := Option.isSome_iff_exists.mp hsome
    cases cut with
    | none => exact advance_none_eq_fullScan hretains hweight hnext h
    | some fresh =>
      obtain ⟨cutoffU64, -, h⟩ := bind_eq_ok.mp h
      cases hrefusal : prior.refusal anchorMs cutoffU64 (some fresh) with
      | some outcome =>
        rw [hrefusal] at h
        cases h
      | none =>
        rw [hrefusal] at h
        exact advanceInCut_eq_fullScan hretains hweight hnext (hcut fresh rfl) hrefusal h
  refine ⟨hadvanced, fun outcome shares h => ?_⟩
  obtain ⟨next, hnext, h⟩ := bind_eq_ok.mp h
  obtain ⟨advanced, hadvance, h⟩ := bind_eq_ok.mp h
  rw [okOr_eq_ok] at hnext
  cases advanced with
  | advanced window leaf =>
    cases h
    exact hadvanced shares leaf (Option.isSome_iff_exists.mpr ⟨next, hnext⟩) hadvance
  | rejected refused =>
    obtain ⟨window, hscan, h⟩ := bind_eq_ok.mp h
    cases h
    exact hscan

/-- The window of the first two rows, when they were all there was. -/
def retainedWindow : RetainedShares where
  anchorMs := 5
  cutoff := 2
  cut := some ⟨some 1, some 2, by decide, sampleCut.node1_ne⟩
  shares := [ledgerShare 1 5, ledgerShare 2 5]
  leaf := some ⟨1, "742", "1"⟩

def samplePartitions : Partitions where
  inheritsXmin tableoid := if tableoid = 1 then some "742" else none
  timeline := "1"

theorem advance_eq_fullScan_third :
    retainedWindow.Retains sampleLedger ∧ sampleCut.EntersAt sampleLedger 5 4 ∧
    ∃ leaf, advance sampleLedger samplePartitions 5 (some sampleCut) retainedWindow 8 4 =
        .ok (.advanced [ledgerShare 2 5, ledgerShare 3 5] leaf) ∧
      fullScan sampleLedger 5 4 (some sampleCut) 8 = .ok [ledgerShare 2 5, ledgerShare 3 5] := by
  have hretains : retainedWindow.Retains sampleLedger := by
    obtain ⟨shares, hscan, hshares⟩ := exists_of_any (x := fullScan ⟨[ledgerRow 1 5 0, ledgerRow 2 5 1], by decide⟩
      5 2 retainedWindow.cut 8) (p := fun shares => shares = retainedWindow.shares) (by decide +kernel)
    exact ⟨_, 2, 8, by decide +kernel, rfl, of_decide_eq_true hshares ▸ hscan⟩
  have hentries : sampleCut.EntersAt sampleLedger 5 4 := by
    intro node entry hentry
    unfold WindowCut.get at hentry
    split at hentry
    · obtain rfl : (3 : U64) = entry := Option.some.inj (Option.some.inj hentry)
      exact ⟨by decide, ledgerRow 3 5 0, by decide +kernel, by decide, rfl, rfl⟩
    · obtain rfl : (2 : U64) = entry := Option.some.inj (Option.some.inj hentry)
      exact ⟨by decide, ledgerRow 2 5 1, by decide +kernel, by decide, rfl, rfl⟩
    · cases hentry
  obtain ⟨outcome, hadvance, houtcome⟩ := exists_of_any
    (x := advance sampleLedger samplePartitions 5 (some sampleCut) retainedWindow 8 4)
    (p := fun
      | .advanced shares _ => shares = [ledgerShare 2 5, ledgerShare 3 5]
      | .rejected _ => false) (by decide +kernel)
  cases outcome with
  | rejected refused => cases houtcome
  | advanced shares leaf =>
    obtain rfl := of_decide_eq_true houtcome
    refine ⟨hretains, hentries, leaf, hadvance, ?_⟩
    exact (advance_eq_fullScan sampleLedger samplePartitions 5 4 (some sampleCut)
      (fun fresh hfresh => Option.some.inj hfresh ▸ hentries) retainedWindow hretains 8 (by decide)).1 _ leaf
      (by decide) hadvance

end QbitPrism
