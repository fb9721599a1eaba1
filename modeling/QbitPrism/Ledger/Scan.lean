import Mathlib
import QbitPrism.Ledger.Rows
import QbitPrism.Window.Advance

/-!
# The newest-first scan

`snapshot_with_admission` reads the eligible rows newest first, a page at a time, until their
difficulties reach the target weight or the ledger ends. The same walk, bounded in pages, extends a
retained window downwards. However the pages fall, the walk takes the newest rows that reach the
weight, the crossing row among them.
-/
namespace QbitPrism
open MachineInt Checked List

/-- The rows a walk has taken, newest first, what is left of the target, and where it stands. -/
structure RowWalk where
  rows : List AcceptedShare
  remaining : U128
  cursor : ℤ

namespace RowWalk

def take (walk : RowWalk) (share : AcceptedShare) : RowWalk where
  rows := walk.rows ++ [share]
  remaining := walk.remaining.saturatingSub share.shareDifficulty
  cursor := share.shareSeq.val

def takePage (walk : RowWalk) : List ShareRow → Except LandingError RowWalk
  | [] => pure walk
  | row :: page => do
    let share ← shareFromRow row
    let walk := walk.take share
    if walk.remaining = 0 then pure walk else walk.takePage page

/-- Pages until the target is met or no row is left; `none` when the pages are used up before. -/
def down (cut : Option WindowCut) (selected : List ShareRow) (limit : ℕ) :
    ℕ → RowWalk → Except LandingError (Option RowWalk)
  | 0, walk => pure (if walk.remaining = 0 then some walk else none)
  | pages + 1, walk =>
    if walk.remaining = 0 then pure (some walk)
    else do
      bindCut cut
      let page := pageBelow selected limit walk.cursor
      if page = [] then pure (some walk)
      else do
        let walk ← walk.takePage page
        walk.down cut selected limit pages

end RowWalk

/-- Where the scan starts: above the accepted cutoff, or above the cut's highest entry. -/
def scanCursor (cutoff : I64) : Option WindowCut → Except LandingError I64
  | none => okOr (cutoff.checkedAdd 1) (.refused "share sequence exhausted")
  | some cut => do
    let _ ← okOr (cutoff.checkedAdd 1) (LandingError.refused "share sequence exhausted")
    match cut.top with
    | none => pure 1
    | some top => do
      let top ← toI64 top.val
      pure (Signed.wrapping (top.val + 1))

def scanPageRows : ℕ := 4096

/-- The full scan of `snapshot_with_admission`. A page holds a row, so a ledger never has more pages
than rows. -/
def fullScan (ledger : ShareLedger) (anchorMs cutoff : I64) (cut : Option WindowCut) (weight : U128) :
    Except LandingError (List AcceptedShare) := do
  let cursor ← scanCursor cutoff cut
  let selected := ledger.eligible anchorMs cut
  let walk ← RowWalk.down cut selected scanPageRows (ledger.rows.length + 1) ⟨[], weight, cursor.val⟩
  okOr (walk.map fun walk => walk.rows.reverse) (.refused "more pages than rows")

variable {share : AcceptedShare} {cut : Option WindowCut} {selected : List ShareRow} {limit : ℕ}
  {shares : List AcceptedShare}

namespace RowWalk
variable {walk after : RowWalk} {page rest : List ShareRow}

theorem take_remaining (walk : RowWalk) {row : ShareRow} (h : shareFromRow row = .ok share) :
    (walk.take share).remaining.val = walk.remaining.val - row.shareDifficulty := by
  rw [← (shareFromRow_decodes h).difficulty]
  rfl

theorem remaining_eq_zero : walk.remaining = 0 ↔ walk.remaining.val = 0 :=
  ⟨fun h => h ▸ Unsigned.val_zero, fun h => Unsigned.ext (h.trans Unsigned.val_zero.symm)⟩

theorem takePage_eq (hremaining : walk.remaining ≠ 0) (page : List ShareRow) :
    walk.takePage page =
      (Crossing.take ShareRow.shareDifficulty walk.remaining.val page).mapM shareFromRow >>= fun shares =>
        pure (shares.foldl RowWalk.take walk) := by
  induction page generalizing walk with
  | nil => rfl
  | cons row page ih =>
    rw [takePage, Crossing.take_cons (mt remaining_eq_zero.mpr hremaining), mapM_cons]
    cases hrow : shareFromRow row with
    | error e => rfl
    | ok share =>
      simp only [ok_bind, bind_assoc, pure_bind, foldl_cons]
      rw [← walk.take_remaining hrow]
      by_cases hzero : (walk.take share).remaining = 0
      · rw [if_pos hzero, remaining_eq_zero.mp hzero, Crossing.take_zero]
        rfl
      · rw [if_neg hzero, ih hzero]

theorem foldl_rows (walk : RowWalk) (shares : List AcceptedShare) :
    (shares.foldl RowWalk.take walk).rows = walk.rows ++ shares := by
  induction shares generalizing walk with
  | nil => simp
  | cons share shares ih =>
    rw [foldl_cons, ih]
    simp [RowWalk.take]

theorem takePage_append (hremaining : walk.remaining ≠ 0) :
    walk.takePage (page ++ rest) = walk.takePage page >>= fun after =>
      if after.remaining = 0 then pure after else after.takePage rest := by
  induction page generalizing walk with
  | nil =>
    rw [takePage, nil_append, pure_bind, if_neg hremaining]
  | cons row page ih =>
    rw [cons_append, takePage, takePage, bind_assoc]
    refine bind_congr fun share => ?_
    by_cases hzero : (walk.take share).remaining = 0
    · simp only [if_pos hzero, pure_bind]
    · simp only [if_neg hzero]
      exact ih hzero

theorem takePage_cursor (hremaining : walk.remaining ≠ 0) {row : ShareRow}
    (h : walk.takePage (page ++ [row]) = .ok after) (hafter : after.remaining ≠ 0) :
    after.cursor = row.seq := by
  rw [takePage_append hremaining] at h
  obtain ⟨middle, hmiddle, h⟩ := bind_eq_ok.mp h
  split_ifs at h with hzero
  · cases h
    exact absurd hzero hafter
  · obtain ⟨share, hshare, h⟩ := bind_eq_ok.mp h
    have hlast : middle.take share = after := by
      dsimp only at h
      split_ifs at h <;> exact Except.ok.inj h
    rw [← hlast, ← (shareFromRow_decodes hshare).seq]
    rfl

theorem down_of_met (pages : ℕ) (hmet : walk.remaining = 0) :
    walk.down cut selected limit pages = .ok (some walk) := by
  cases pages with
  | zero | succ => rw [down, if_pos hmet]; rfl

theorem down_eq (hbind : bindCut cut = .ok ()) (hselected : selected.Pairwise fun a b => a.seq < b.seq)
    (hlimit : 0 < limit) (pages : ℕ) (hremaining : walk.remaining ≠ 0) :
    walk.down cut selected limit pages = .ok none ∧
        pages ≤ (Keyset.beyond (· > ·) ShareRow.seq walk.cursor selected.reverse).length ∨
      walk.down cut selected limit pages =
        some <$> walk.takePage (Keyset.beyond (· > ·) ShareRow.seq walk.cursor selected.reverse) := by
  induction pages generalizing walk with
  | zero => exact .inl ⟨by rw [down, if_neg hremaining]; rfl, Nat.zero_le _⟩
  | succ pages ih =>
    have hordered : Keyset.Ordered (· > ·) ShareRow.seq selected.reverse :=
      pairwise_reverse.mpr hselected
    rw [down, if_neg hremaining, hbind, ok_bind]
    rcases hordered.page_cases (fun _ _ _ hab hbc => hbc.trans hab) (fun _ _ => lt_asymm) hlimit.ne'
      (rfl : pageBelow selected limit walk.cursor = _) with ⟨hpage, hnil⟩ | ⟨front, row, hpage, hrest⟩
    · rw [if_pos hpage, hnil]
      exact .inr rfl
    · generalize hbelow : Keyset.beyond (· > ·) ShareRow.seq walk.cursor selected.reverse = below at hrest
      have hsplit : below = pageBelow selected limit walk.cursor ++ below.drop limit := by
        rw [pageBelow, hbelow, take_append_drop]
      have hlength : (below.drop limit).length < below.length := by
        conv_rhs => rw [hsplit, hpage, length_append, length_append, length_singleton]
        omega
      rw [if_neg (by rw [hpage]; simp)]
      conv in _ <$> _ => rw [hsplit, takePage_append hremaining]
      cases hafter : walk.takePage (pageBelow selected limit walk.cursor) with
      | error e => exact .inr rfl
      | ok after =>
        rw [ok_bind, ok_bind]
        by_cases hzero : after.remaining = 0
        · rw [if_pos hzero, down_of_met pages hzero]
          exact .inr rfl
        · rw [hpage] at hafter
          have hcursor := takePage_cursor hremaining hafter hzero
          rw [if_neg hzero]
          rcases ih hzero with ⟨hnone, hle⟩ | hsome
          · rw [hcursor, hrest] at hle
            exact .inl ⟨hnone, by omega⟩
          · rw [hcursor, hrest] at hsome
            exact .inr hsome

end RowWalk

theorem beyond_reverse (rows : List ShareRow) (cursor : ℤ) :
    Keyset.beyond (· > ·) ShareRow.seq cursor rows.reverse = (rows.filter (·.seq < cursor)).reverse := by
  rw [Keyset.beyond, filter_reverse]

theorem RowWalk.down_eq_ok {walk : RowWalk} (hbind : bindCut cut = .ok ())
    (hselected : selected.Pairwise fun a b => a.seq < b.seq) {pages : ℕ} (hlimit : 0 < limit)
    (hremaining : walk.remaining ≠ 0) {after : RowWalk} :
    walk.down cut selected limit pages = .ok (some after) →
      ∃ shares, Decoded (Crossing.take ShareRow.shareDifficulty walk.remaining.val
        (selected.filter (·.seq < walk.cursor)).reverse) shares ∧ after = shares.foldl RowWalk.take walk := by
  intro h
  rcases RowWalk.down_eq hbind hselected hlimit pages hremaining with ⟨hnone, -⟩ | hdown
  · rw [hnone] at h
    cases h
  · rw [hdown, RowWalk.takePage_eq hremaining, beyond_reverse, map_bind, bind_eq_ok] at h
    obtain ⟨shares, hshares, h⟩ := h
    rw [map_pure, pure_eq_ok] at h
    exact ⟨shares, Decoded.of_mapM.mp hshares, (Option.some.inj h).symm⟩

def ShareLedger.scanned (ledger : ShareLedger) (anchorMs : I64) (cut : Option WindowCut) (cursor : I64) :
    List ShareRow :=
  (ledger.eligible anchorMs cut).filter (·.seq < cursor.val)

theorem ShareLedger.length_scanned_le (ledger : ShareLedger) (anchorMs : I64) (cut : Option WindowCut)
    (cursor : I64) : (ledger.scanned anchorMs cut cursor).length ≤ ledger.rows.length :=
  (length_filter_le _ _).trans (length_filter_le _ _)

theorem fullScan_eq_ok {ledger : ShareLedger} {anchorMs cutoff : I64} {weight : U128} (hweight : weight ≠ 0) :
    fullScan ledger anchorMs cutoff cut weight = .ok shares ↔
      ∃ cursor, scanCursor cutoff cut = .ok cursor ∧ bindCut cut = .ok () ∧
        Decoded (Crossing.take ShareRow.shareDifficulty weight.val
          (ledger.scanned anchorMs cut cursor).reverse) shares.reverse := by
  rw [fullScan, bind_eq_ok]
  refine exists_congr fun cursor => and_congr_right fun _ => ?_
  cases hbind : bindCut cut with
  | error e => simp [RowWalk.down, hweight, hbind]
  | ok value =>
    have hpages := ledger.length_scanned_le anchorMs cut cursor
    have hdown := (@RowWalk.down_eq cut _ _ ⟨[], weight, cursor.val⟩ hbind
      (ledger.eligible_ascending anchorMs cut) (show 0 < scanPageRows by decide)
      (ledger.rows.length + 1) hweight).resolve_left fun h => by
        rw [beyond_reverse, length_reverse] at h
        exact absurd (h.2.trans hpages) (Nat.not_succ_le_self _)
    dsimp only
    rw [hdown, RowWalk.takePage_eq hweight, beyond_reverse, map_bind, bind_assoc, bind_eq_ok]
    constructor
    · rintro ⟨taken, htaken, h⟩
      rw [map_pure, pure_bind, Option.map_some, okOr_some, RowWalk.foldl_rows] at h
      refine ⟨rfl, ?_⟩
      rw [← Except.ok.inj h, reverse_reverse]
      exact Decoded.of_mapM.mp htaken
    · rintro ⟨-, hdecoded⟩
      refine ⟨shares.reverse, Decoded.of_mapM.mpr hdecoded, ?_⟩
      rw [map_pure, pure_bind, Option.map_some, okOr_some, RowWalk.foldl_rows]
      simp

theorem decoded_take_iff {weight : ℕ} :
    Decoded (Crossing.take ShareRow.shareDifficulty weight selected.reverse) (share :: shares).reverse ↔
      ∃ older row rows, selected = older ++ row :: rows ∧ Decoded (row :: rows) (share :: shares) ∧
        Crossing.weight ShareRow.shareDifficulty rows < weight ∧
        (older = [] ∨ weight ≤ Crossing.weight ShareRow.shareDifficulty (row :: rows)) := by
  constructor
  · intro h
    obtain ⟨older, holder⟩ := Crossing.take_initial (w := ShareRow.shareDifficulty) weight selected.reverse
    generalize htaken : Crossing.take ShareRow.shareDifficulty weight selected.reverse = taken at h holder
    have hdecoded : Decoded taken.reverse (share :: shares) := by simpa using h.reverse
    obtain ⟨row, rows, hrow, hrows, hcons⟩ := List.forall₂_cons_right_iff.mp hdecoded
    have hselected : selected = older.reverse ++ row :: rows := by
      rw [← hcons, ← reverse_append, holder, reverse_reverse]
    have htaken' : taken = (row :: rows).reverse := by rw [← hcons, reverse_reverse]
    refine ⟨older.reverse, row, rows, hselected, hcons ▸ hdecoded, ?_⟩
    rw [← Crossing.take_reverse_iff, ← hselected, htaken, htaken']
  · rintro ⟨older, row, rows, rfl, hdecoded, hcross⟩
    rw [Crossing.take_reverse_iff.mpr hcross]
    exact hdecoded.reverse

end QbitPrism
