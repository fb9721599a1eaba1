import Mathlib
import QbitPrism.Ledger.Scan

/-!
# The landing proof of a window

`verify_durable_range` proves a candidate's window against the ledger before it lands: the rows of its
range are its shares, none is newer, and its oldest share is the one that crosses the target or the
first there is. It accepts exactly the window the full scan would collect.
-/
namespace QbitPrism
open MachineInt Checked List

variable {L : Type}

inductive OldestBoundary where
  | crossing
  | partialHistory
  deriving DecidableEq

def remainingAfter (weight : U128) (shares : List AcceptedShare) : U128 :=
  shares.foldl (fun left share => left.saturatingSub share.shareDifficulty) weight

def oldestBoundary (weight : U128) (shares : List AcceptedShare) : Except LandingError OldestBoundary := do
  let remainingWithoutOldest := remainingAfter weight (shares.drop 1)
  ensure (0 < remainingWithoutOldest.val) "audit share snapshot extends past canonical oldest share"
  let oldest ← okOr shares.head? (.refused "audit share snapshot cannot be empty")
  pure (if oldest.shareDifficulty.val < remainingWithoutOldest.val then .partialHistory else .crossing)

def verifyPageRows : ℕ := 4096

def matchPages (cut : Option WindowCut) (selected : List ShareRow) (last : ℤ) (shares : List AcceptedShare) :
    ℕ → ℤ → ℕ → Except LandingError ℕ
  | 0, _, _ => .error (.refused "more pages than rows")
  | pages + 1, cursor, matched =>
    if cursor < last then do
      bindCut cut
      let rows := pageAbove selected verifyPageRows last cursor
      if rows = [] then pure matched
      else do
        let expected := (shares.take (min (matched + rows.length) shares.length)).drop
          (min matched shares.length)
        let durable ← rows.mapM shareFromRow
        ensure (durable = expected) "audit share snapshot differs from canonical database history"
        let newest ← okOr durable.getLast? (.refused "index out of bounds")
        matchPages cut selected last shares pages newest.shareSeq.val (matched + rows.length)
    else pure matched

/-- The cut's highest entry: `none` without a cut, `some none` with one that admits no row. -/
def cutTop : Option WindowCut → Except LandingError (Option (Option I64))
  | none => pure none
  | some cut =>
    match cut.top with
    | none => pure (some none)
    | some top => do
      let top ← toI64 top.val
      pure (some (some top))

def newerRow (selected : List ShareRow) (last : ℤ) (cut : Option WindowCut) (top : Option (Option I64)) :
    Except LandingError (Option ShareRow) :=
  match cut, top with
  | some cut, some (some top) => do
    bindCut (some cut)
    pure (selected.filter fun row => last < row.seq && row.seq ≤ top.val).head?
  | some _, _ => pure none
  | none, _ => pure (selected.filter fun row => last < row.seq).head?

def verifyDurableRange (ledger : ShareLedger) (snapshot : AuditSnapshotWrite L) : Except LandingError Unit := do
  ensure (0 < snapshot.shareCount.val) "audit share snapshot cannot be empty"
  let top ← cutTop snapshot.cut
  let selected := ledger.eligible snapshot.anchorMs snapshot.cut
  if snapshot.inlineShares.isSome then
    if top = some none then pure ()
    else do
      bindCut snapshot.cut
      ensure (selected = []) "bootstrap audit window omits canonical shares"
  else do
    let weight ← okOr (snapshot.networkDifficulty.checkedMul prismWindowMultiplier)
      (.refused "window difficulty overflow")
    ensure (0 < weight.val) "network difficulty must be positive"
    let cursor : I64 := .wrapping (snapshot.firstShareSeq.val - 1)
    let matched ← matchPages snapshot.cut selected snapshot.lastShareSeq.val snapshot.shares
      (ledger.rows.length + 1) cursor.val 0
    ensure (matched = snapshot.shares.length) "audit share snapshot differs from canonical database history"
    let newer ← newerRow selected snapshot.lastShareSeq.val snapshot.cut top
    ensure (newer = none) "audit share snapshot omits newest canonical share"
    let boundary ← oldestBoundary weight snapshot.shares
    if boundary = .partialHistory then do
      bindCut snapshot.cut
      let older := (selected.filter fun row => row.seq < snapshot.firstShareSeq.val).getLast?
      ensure (older = none) "audit share snapshot omits oldest canonical shares"
    else pure ()

section Pages
variable {cut : Option WindowCut} {selected : List ShareRow} {last : ℤ} {shares : List AcceptedShare}

theorem Decoded.split {front rest : List ShareRow} (h : Decoded (front ++ rest) shares) :
    Decoded front (shares.take front.length) ∧ Decoded rest (shares.drop front.length) := by
  have htake : Decoded ((front ++ rest).take front.length) _ := List.forall₂_take front.length h
  have hdrop : Decoded ((front ++ rest).drop front.length) _ := List.forall₂_drop front.length h
  rw [take_left] at htake
  rw [drop_left] at hdrop
  exact ⟨htake, hdrop⟩

theorem Decoded.newest {front : List ShareRow} {row : ShareRow} (h : Decoded (front ++ [row]) shares) :
    ∃ share, shares.getLast? = some share ∧ (share.shareSeq.val : ℤ) = row.seq := by
  have hseqs := congrArg List.getLast? h.seqs
  rw [List.getLast?_map, map_append, map_singleton, List.getLast?_concat, Option.map_eq_some_iff] at hseqs
  exact hseqs

theorem expected_eq (matched count : ℕ) (shares : List AcceptedShare) :
    (shares.take (min (matched + count) shares.length)).drop (min matched shares.length) =
      (shares.drop matched).take count := by
  rw [← take_eq_take_min, drop_take]
  rcases le_total matched shares.length with hle | hge
  · rw [min_eq_left hle, Nat.add_sub_cancel_left]
  · rw [min_eq_right hge, drop_length, drop_eq_nil_of_le hge, List.take_nil, List.take_nil]

theorem matchPages_eq_ok (hbind : bindCut cut = .ok ()) (hselected : selected.Pairwise fun a b => a.seq < b.seq)
    {pages matched : ℕ} {cursor : ℤ} (hmatched : matched ≤ shares.length)
    (hpages : (rowsAbove selected last cursor).length < pages) :
    matchPages cut selected last shares pages cursor matched = .ok shares.length ↔
      Decoded (rowsAbove selected last cursor) (shares.drop matched) := by
  have hordered : Keyset.Ordered (· < ·) ShareRow.seq (selected.filter (·.seq ≤ last)) :=
    List.Pairwise.filter _ hselected
  induction pages generalizing cursor matched with
  | zero => exact absurd hpages (Nat.not_lt_zero _)
  | succ pages ih =>
    have hdone : matched = shares.length ↔ Decoded [] (shares.drop matched) := by
      rw [Decoded, List.forall₂_nil_left_iff, drop_eq_nil_iff]
      omega
    by_cases hcursor : cursor < last
    · rw [matchPages, if_pos hcursor, hbind, ok_bind]
      rcases hordered.page_cases (fun _ _ _ => Int.lt_trans) (fun _ _ => Int.lt_asymm) (by decide)
        (rfl : pageAbove selected verifyPageRows last cursor = _) with ⟨hpage, hnil⟩ | ⟨front, row, hpage, hrest⟩
      · rw [if_pos hpage, rowsAbove, hnil, pure_eq_ok]
        exact hdone
      · rw [← rowsAbove, ← rowsAbove] at hrest
        generalize hbeyond : rowsAbove selected last cursor = range at hrest hpages
        generalize hrows : pageAbove selected verifyPageRows last cursor = rows at hpage
        have hsplit : range = rows ++ range.drop verifyPageRows := by
          rw [← hrows, pageAbove, ← rowsAbove, hbeyond, take_append_drop]
        rw [if_neg (by rw [hpage]; simp), expected_eq]
        -- The next page begins where this one ends, in the ledger and in the claim.
        have hnext : ∀ newest : AcceptedShare, (newest.shareSeq.val : ℤ) = row.seq →
            matched + rows.length ≤ shares.length →
            (matchPages cut selected last shares pages newest.shareSeq.val (matched + rows.length) =
              .ok shares.length ↔
            Decoded (range.drop verifyPageRows) ((shares.drop matched).drop rows.length)) := by
          intro newest hnewest hle
          have hshorter : (range.drop verifyPageRows).length < pages := by
            have hlength := congrArg List.length hsplit
            rw [hpage, length_append, length_append, length_singleton] at hlength
            omega
          rw [drop_drop, ← hrest, ← hnewest]
          exact ih hle (by rw [hnewest, hrest]; exact hshorter)
        constructor
        · intro h
          simp only [ensure, bind_eq_ok, require_eq_ok, okOr_eq_ok, exists_const] at h
          obtain ⟨durable, hdurable, hexpected, newest, hnewest, h⟩ := h
          have hdecoded := Decoded.of_mapM.mp hdurable
          obtain ⟨share, hshare, hseq⟩ := (hpage ▸ hdecoded).newest
          obtain rfl : share = newest := Option.some.inj (hshare.symm.trans hnewest)
          have hle : matched + rows.length ≤ shares.length := by
            have hlength := hdecoded.length
            rw [hexpected, length_take, length_drop] at hlength
            omega
          rw [hsplit, ← take_append_drop rows.length (shares.drop matched), ← hexpected]
          exact hdecoded.append ((hnext share hseq hle).mp h)
        · intro h
          rw [hsplit] at h
          obtain ⟨hdecoded, hrestDecoded⟩ := h.split
          have hpageDecoded : Decoded (front ++ [row]) ((shares.drop matched).take rows.length) := by
            rw [← hpage]
            exact hdecoded
          obtain ⟨newest, hnewest, hseq⟩ := hpageDecoded.newest
          have hle : matched + rows.length ≤ shares.length := by
            have hlength := hdecoded.length
            rw [length_take, length_drop] at hlength
            omega
          simp only [ensure, bind_eq_ok, require_eq_ok, okOr_eq_ok, exists_const]
          exact ⟨_, Decoded.of_mapM.mpr hdecoded, rfl, newest, hnewest,
            (hnext newest hseq hle).mpr hrestDecoded⟩
    · rw [matchPages, if_neg hcursor, rowsAbove_past hcursor, pure_eq_ok]
      exact hdone

end Pages

structure AuditSnapshotWrite.OfShares (snapshot : AuditSnapshotWrite L) : Prop where
  ascending : snapshot.shares.Pairwise fun a b => a.shareSeq.val < b.shareSeq.val
  first : snapshot.shares.head?.map (fun share => (share.shareSeq.val : ℤ)) = some snapshot.firstShareSeq.val
  last : snapshot.shares.getLast?.map (fun share => (share.shareSeq.val : ℤ)) =
    some snapshot.lastShareSeq.val
  count : snapshot.shareCount.val = snapshot.shares.length

theorem remainingAfter_val (weight : U128) (shares : List AcceptedShare) :
    (remainingAfter weight shares).val = weight.val - Crossing.weight AcceptedShare.difficulty shares := by
  induction shares generalizing weight with
  | nil => rfl
  | cons share shares ih =>
    rw [remainingAfter, foldl_cons, ← remainingAfter, ih, Crossing.weight_cons, ← Nat.sub_sub]
    rfl

variable {shares : List AcceptedShare}

theorem Decoded.weight {rows : List ShareRow} (h : Decoded rows shares) :
    Crossing.weight ShareRow.shareDifficulty rows = Crossing.weight AcceptedShare.difficulty shares := by
  rw [Crossing.weight, ← h.difficulties]
  rfl

section Window
variable {ledger : ShareLedger} {snapshot : AuditSnapshotWrite L}

variable {share : AcceptedShare}

theorem oldestBoundary_eq_ok {weight : U128} {boundary : OldestBoundary} :
    oldestBoundary weight (share :: shares) = .ok boundary ↔
      Crossing.weight AcceptedShare.difficulty shares < weight.val ∧
      (boundary = .partialHistory ↔
        Crossing.weight AcceptedShare.difficulty (share :: shares) < weight.val) := by
  simp only [oldestBoundary, ensure, bind_eq_ok, require_eq_ok, exists_const, drop_succ_cons,
    drop_zero, remainingAfter_val, List.head?_cons, okOr_some, Except.ok.injEq, exists_eq_left',
    pure_eq_ok, Crossing.weight_cons]
  have hdifficulty : share.difficulty = share.shareDifficulty.val := rfl
  split_ifs with hlt
  · cases boundary <;> simp <;> omega
  · cases boundary <;> simp <;> omega

variable {last : ℤ}

theorem le_getLast {xs : List ℤ} (h : xs.Pairwise (· < ·)) (hlast : xs.getLast? = some last) :
    ∀ x ∈ xs, x ≤ last := by
  obtain ⟨front, rfl⟩ := List.getLast?_eq_some_iff.mp hlast
  intro x hx
  rcases mem_append.mp hx with hfront | hone
  · exact le_of_lt ((pairwise_append.mp h).2.2 x hfront last mem_cons_self)
  · exact le_of_eq (mem_singleton.mp hone)

theorem range_iff_newest {selected : List ShareRow} (hselected : selected.Pairwise fun a b => a.seq < b.seq)
    {first : ℤ} {weight : ℕ} (hfirst : (share.shareSeq.val : ℤ) = first)
    (hlast : ((share :: shares).map fun share => (share.shareSeq.val : ℤ)).getLast? = some last) :
    (Decoded (selected.filter fun row => first ≤ row.seq && row.seq ≤ last) (share :: shares) ∧
        (∀ row ∈ selected, row.seq ≤ last) ∧
        Crossing.weight AcceptedShare.difficulty shares < weight ∧
        (Crossing.weight AcceptedShare.difficulty (share :: shares) < weight →
          ∀ row ∈ selected, first ≤ row.seq)) ↔
      ∃ older row rows, selected = older ++ row :: rows ∧ Decoded (row :: rows) (share :: shares) ∧
        Crossing.weight ShareRow.shareDifficulty rows < weight ∧
        (older = [] ∨ weight ≤ Crossing.weight ShareRow.shareDifficulty (row :: rows)) := by
  constructor
  · rintro ⟨hrange, hnewest, hweight, holdest⟩
    have hsplit := Keyset.filter_append_filter (p := fun row : ShareRow => row.seq < first) hselected
      (fun a b hab hb => by simp only [decide_eq_true_eq] at hb ⊢; omega)
    have hsame : selected.filter (fun row => !decide (row.seq < first)) =
        selected.filter fun row => first ≤ row.seq && row.seq ≤ last := by
      refine filter_congr fun row hrow => ?_
      have hle := hnewest row hrow
      rw [Bool.eq_iff_iff]
      simp [hle]
    rw [hsame] at hsplit
    obtain ⟨row, rows, hrow, hrows, hcons⟩ := List.forall₂_cons_right_iff.mp hrange
    have hdecoded : Decoded (row :: rows) (share :: shares) := hcons ▸ hrange
    refine ⟨_, row, rows, by rw [← hcons, hsplit], hdecoded, ?_, ?_⟩
    · rw [Decoded.weight hrows]
      exact hweight
    · rw [hdecoded.weight]
      by_cases hshort : Crossing.weight AcceptedShare.difficulty (share :: shares) < weight
      · refine .inl (filter_eq_nil_iff.mpr fun older holder => ?_)
        have := holdest hshort older holder
        simpa using this
      · exact .inr (Nat.le_of_not_lt hshort)
  · rintro ⟨older, row, rows, rfl, hdecoded, hweight, hcross⟩
    obtain ⟨hrow, hrows⟩ := List.forall₂_cons.mp hdecoded
    obtain ⟨-, hnewer, holder⟩ := pairwise_append.mp hselected
    have hseqs := hdecoded.seqs
    have hrowSeq : row.seq = first := by rw [← hfirst, (shareFromRow_decodes hrow).seq]
    rw [hseqs] at hlast
    have hle : ∀ newer ∈ row :: rows, newer.seq ≤ last := fun newer hmem =>
      le_getLast (pairwise_map.mpr hnewer) hlast newer.seq (mem_map_of_mem hmem)
    have hge : ∀ newer ∈ row :: rows, first ≤ newer.seq := by
      intro newer hmem
      rcases mem_cons.mp hmem with rfl | hmem
      · exact hrowSeq.ge
      · have := rel_of_pairwise_cons hnewer hmem
        omega
    have hbelow : ∀ old ∈ older, old.seq < first := fun old hold =>
      hrowSeq ▸ holder old hold row mem_cons_self
    refine ⟨?_, ?_, ?_, ?_⟩
    · have hnone : older.filter (fun row => first ≤ row.seq && row.seq ≤ last) = [] := by
        refine filter_eq_nil_iff.mpr fun old hold => ?_
        have := hbelow old hold
        simp only [Bool.and_eq_true, decide_eq_true_eq, not_and]
        omega
      have hall : (row :: rows).filter (fun row => first ≤ row.seq && row.seq ≤ last) = row :: rows := by
        refine filter_eq_self.mpr fun newer hmem => ?_
        simp [hle newer hmem, hge newer hmem]
      rw [filter_append, hnone, hall]
      exact hdecoded
    · intro newer hmem
      rcases mem_append.mp hmem with hold | hnew
      · have := hbelow newer hold
        have := hle row mem_cons_self
        omega
      · exact hle newer hnew
    · rw [← Decoded.weight hrows]
      exact hweight
    · intro hshort newer hmem
      rw [← hdecoded.weight] at hshort
      obtain rfl : older = [] := hcross.resolve_right (Nat.not_le_of_lt hshort)
      exact hge newer hmem

variable {cut : WindowCut}

theorem cutTop_some (hbind : bindCut (some cut) = .ok ()) :
    cut.top = none ∧ cutTop (some cut) = .ok (some none) ∨
      ∃ (top : U64) (signed : I64), cut.top = some top ∧ signed.val = top.val ∧
        cutTop (some cut) = .ok (some (some signed)) := by
  cases htop : cut.top with
  | none => exact .inl ⟨rfl, by rw [cutTop, htop]; rfl⟩
  | some top =>
    have hfits : top.val < 2 ^ 63 := by
      rcases WindowCut.top_mem htop with hentry | hentry
      · exact (bindCut_some.mp hbind).1 top hentry
      · exact (bindCut_some.mp hbind).2 top hentry
    obtain ⟨signed, hsigned⟩ : ∃ signed : I64, signed.val = top.val :=
      ⟨⟨top.val, by omega, by omega⟩, rfl⟩
    refine .inr ⟨top, signed, rfl, hsigned, ?_⟩
    simp only [cutTop, htop, toI64_eq_ok.mpr hsigned, ok_bind]
    rfl

variable {anchorMs : I64}

theorem eligible_le_top {row : ShareRow} (hrow : row ∈ ledger.eligible anchorMs (some cut)) :
    ∃ top, cut.top = some top ∧ row.seq ≤ top.val := by
  have helig := (mem_filter.mp hrow).2
  rw [ShareRow.windowEligible, Bool.and_eq_true] at helig
  exact ShareRow.le_top helig.2

theorem eligible_eq_nil (htop : cut.top = none) : ledger.eligible anchorMs (some cut) = [] := by
  refine eq_nil_iff_forall_not_mem.mpr fun row hrow => ?_
  obtain ⟨top, hsome, -⟩ := eligible_le_top hrow
  rw [htop] at hsome
  cases hsome

variable {cut : Option WindowCut}

theorem newerRow_eq_ok (hbind : bindCut cut = .ok ()) :
    (∃ top, cutTop cut = .ok top ∧ newerRow (ledger.eligible anchorMs cut) last cut top = .ok none) ↔
      ∀ row ∈ ledger.eligible anchorMs cut, row.seq ≤ last := by
  cases cut with
  | none => simp [cutTop, newerRow]
  | some cut =>
    rcases cutTop_some hbind with ⟨htop, hcutTop⟩ | ⟨top, signed, htop, hsigned, hcutTop⟩
    · simp [hcutTop, newerRow, eligible_eq_nil htop]
    · simp only [hcutTop, Except.ok.injEq, exists_eq_left', newerRow, hbind, ok_bind, pure_eq_ok,
        List.head?_eq_none_iff, filter_eq_nil_iff]
      refine forall₂_congr fun row hrow => ?_
      obtain ⟨other, hother, hle⟩ := eligible_le_top hrow
      obtain rfl : top = other := Option.some.inj (htop.symm.trans hother)
      rw [← hsigned] at hle
      simp [hle]

theorem beyond_range (selected : List ShareRow) {first : I64} (hfirst : 0 ≤ first.val) (last : ℤ) :
    rowsAbove selected last (Signed.wrapping (first.val - 1) : I64).val =
      selected.filter fun row => first.val ≤ row.seq && row.seq ≤ last := by
  have hupper := first.upper
  rw [Signed.wrapping_val (by omega) (by omega), rowsAbove, Keyset.beyond, filter_filter]
  refine filter_congr fun row _ => ?_
  rw [Bool.eq_iff_iff, Bool.and_eq_true, Bool.and_eq_true, decide_eq_true_eq, decide_eq_true_eq,
    decide_eq_true_eq, Int.sub_one_lt_iff]

theorem olderRow_eq_ok {selected : List ShareRow} {first : ℤ} {enough short : Prop} {message : String} :
    (∃ boundary : OldestBoundary, (enough ∧ (boundary = .partialHistory ↔ short)) ∧
      (if boundary = .partialHistory then
        ensure ((selected.filter fun row => row.seq < first).getLast? = none) message
      else pure ()) = .ok ()) ↔
      enough ∧ (short → ∀ row ∈ selected, first ≤ row.seq) := by
  have hprobe : ensure ((selected.filter fun row => row.seq < first).getLast? = none) message = .ok () ↔
      ∀ row ∈ selected, first ≤ row.seq := by
    simp [ensure_eq_ok]
  constructor
  · rintro ⟨boundary, ⟨henough, hshort⟩, hcheck⟩
    refine ⟨henough, fun h => ?_⟩
    rw [if_pos (hshort.mpr h)] at hcheck
    exact hprobe.mp hcheck
  · rintro ⟨henough, hshort⟩
    by_cases h : short
    · exact ⟨.partialHistory, ⟨henough, iff_of_true rfl h⟩, by rw [if_pos rfl]; exact hprobe.mpr (hshort h)⟩
    · exact ⟨.crossing, ⟨henough, iff_of_false (by decide) h⟩, by rw [if_neg (by decide)]; rfl⟩

theorem verifyDurableRange_eq_ok (hinline : snapshot.inlineShares = none) (hof : snapshot.OfShares) {weight : U128}
    (hweight : snapshot.networkDifficulty.checkedMul prismWindowMultiplier = some weight) (hpos : weight ≠ 0)
    (hshares : snapshot.shares = share :: shares) :
    verifyDurableRange ledger snapshot = .ok () ↔
      bindCut snapshot.cut = .ok () ∧
      (Decoded ((ledger.eligible snapshot.anchorMs snapshot.cut).filter fun row =>
          snapshot.firstShareSeq.val ≤ row.seq && row.seq ≤ snapshot.lastShareSeq.val) (share :: shares) ∧
        (∀ row ∈ ledger.eligible snapshot.anchorMs snapshot.cut, row.seq ≤ snapshot.lastShareSeq.val) ∧
        Crossing.weight AcceptedShare.difficulty shares < weight.val ∧
        (Crossing.weight AcceptedShare.difficulty (share :: shares) < weight.val →
          ∀ row ∈ ledger.eligible snapshot.anchorMs snapshot.cut, snapshot.firstShareSeq.val ≤ row.seq)) := by
  have hfirst : (share.shareSeq.val : ℤ) = snapshot.firstShareSeq.val := by
    simpa [hshares] using hof.first
  have hle : snapshot.firstShareSeq.val ≤ snapshot.lastShareSeq.val := by
    have hlast := hof.last
    rw [← List.getLast?_map] at hlast
    have hascending := pairwise_map.mpr (hof.ascending.imp Int.ofNat_lt.mpr)
    rw [← hfirst]
    exact le_getLast hascending hlast _ (by simp [hshares])
  have hcursor : (Signed.wrapping (snapshot.firstShareSeq.val - 1) : I64).val < snapshot.lastShareSeq.val := by
    have hupper := snapshot.firstShareSeq.upper
    rw [Signed.wrapping_val (by omega) (by omega)]
    omega
  have hcount : 0 < snapshot.shareCount.val := by
    rw [hof.count, hshares, length_cons]
    omega
  have hpos' : 0 < weight.val := Nat.pos_of_ne_zero fun h => hpos (Unsigned.ext (h.trans Unsigned.val_zero.symm))
  cases hbind : bindCut snapshot.cut with
  | error e =>
    refine iff_of_false (fun h => ?_) (fun h => nomatch h.1)
    simp only [verifyDurableRange, hinline, Option.isSome_none, Bool.false_eq_true, if_false, bind_eq_ok,
      hweight, okOr_some, Except.ok.injEq, matchPages, if_pos hcursor, hbind, error_bind, reduceCtorEq,
      exists_false, and_false] at h
  | ok value =>
    have hlength : (rowsAbove (ledger.eligible snapshot.anchorMs snapshot.cut) snapshot.lastShareSeq.val
        (Signed.wrapping (snapshot.firstShareSeq.val - 1) : I64).val).length < ledger.rows.length + 1 :=
      Nat.lt_succ_of_le ((length_filter_le _ _).trans
        ((length_filter_le _ _).trans (length_filter_le _ _)))
    have hmatch := matchPages_eq_ok hbind (ledger.eligible_ascending snapshot.anchorMs snapshot.cut)
      (Nat.zero_le snapshot.shares.length) hlength
    rw [beyond_range _ (by omega), drop_zero] at hmatch
    have hnewer : _ ↔ ∀ row ∈ ledger.eligible snapshot.anchorMs snapshot.cut,
        row.seq ≤ snapshot.lastShareSeq.val := newerRow_eq_ok hbind
    simp only [verifyDurableRange, hinline, Option.isSome_none, Bool.false_eq_true, if_false, bind_eq_ok,
      hweight, okOr_some, exists_const, ensure_eq_ok, hcount, hpos', true_and, hshares,
      oldestBoundary_eq_ok, hbind, ok_bind, olderRow_eq_ok, ← hnewer]
    rw [hshares] at hmatch
    constructor
    · rintro ⟨top, htop, matched, hmatched, rfl, newer, hnewer, rfl, holdest⟩
      exact ⟨hmatch.mp hmatched, ⟨top, htop, hnewer⟩, holdest⟩
    · rintro ⟨hrange, ⟨top, htop, hnewer⟩, holdest⟩
      exact ⟨top, htop, _, hmatch.mpr hrange, rfl, none, hnewer, rfl, holdest⟩

theorem verifyDurableRange_inline (hinline : snapshot.inlineShares.isSome) (hcount : 0 < snapshot.shareCount.val)
    (hbind : bindCut snapshot.cut = .ok ()) :
    verifyDurableRange ledger snapshot = .ok () ↔
      ledger.eligible snapshot.anchorMs snapshot.cut = [] := by
  have hprobe : ∀ {top : Option (Option I64)}, cutTop snapshot.cut = .ok top → top ≠ some none →
      (verifyDurableRange ledger snapshot = .ok () ↔ ledger.eligible snapshot.anchorMs snapshot.cut = []) := by
    intro top htop hne
    simp [verifyDurableRange, htop, hinline, hne, hbind, hcount, ensure_eq_ok]
  cases hcut : snapshot.cut with
  | none => exact hcut ▸ hprobe (by rw [hcut]; rfl) (by simp)
  | some cut =>
    rw [hcut] at hbind
    rcases cutTop_some hbind with ⟨htop, hcutTop⟩ | ⟨top, signed, htop, hsigned, hcutTop⟩
    · refine iff_of_true ?_ (eligible_eq_nil htop)
      simp [verifyDurableRange, hcut, hcutTop, hinline, hcount, ensure_eq_ok]
    · exact hcut ▸ hprobe (by rw [hcut, hcutTop]) (by simp)

/-- No accepted row and no entry of the cut has the last sequence number there is. -/
structure SequencesLeft (ledger : ShareLedger) (cut : Option WindowCut) : Prop where
  cutoff : ledger.acceptedCutoff.val < 2 ^ 63 - 1
  entries : ∀ c ∈ cut, ∀ top ∈ c.top, top.val < 2 ^ 63 - 1

theorem le_acceptedCutoff {row : ShareRow} (hrow : row ∈ ledger.rows) (haccepted : row.accepted) :
    row.seq ≤ ledger.acceptedCutoff.val := by
  have hmem : row ∈ ledger.rows.filter (·.accepted) := mem_filter.mpr ⟨hrow, haccepted⟩
  have hascending := pairwise_map.mpr (List.Pairwise.filter (·.accepted) ledger.ascending)
  rw [ShareLedger.acceptedCutoff]
  cases hlast : (ledger.rows.filter (·.accepted)).getLast? with
  | none =>
    rw [List.getLast?_eq_none_iff.mp hlast] at hmem
    cases hmem
  | some newest =>
    exact le_getLast hascending (by rw [List.getLast?_map, hlast]; rfl) _ (mem_map_of_mem hmem)

theorem bindCut_of_top (h : ∀ c ∈ cut, ∀ top ∈ c.top, top.val < 2 ^ 63) : bindCut cut = .ok () := by
  cases cut with
  | none => rfl
  | some cut =>
    have hentry : ∀ {seq : U64}, cut.node0 = some seq ∨ cut.node1 = some seq → seq.val < 2 ^ 63 := by
      intro seq hseq
      obtain ⟨top, htop, hle⟩ := WindowCut.le_top hseq
      exact lt_of_le_of_lt hle (h cut rfl top htop)
    exact bindCut_some.mpr ⟨fun seq hseq => hentry (.inl hseq), fun seq hseq => hentry (.inr hseq)⟩

theorem SequencesLeft.scanned (h : SequencesLeft ledger cut) (anchorMs : I64) :
    ∃ cursor, scanCursor ledger.acceptedCutoff cut = .ok cursor ∧
      ledger.scanned anchorMs cut cursor = ledger.eligible anchorMs cut := by
  have hall : ∀ {cursor : I64}, (∀ row ∈ ledger.eligible anchorMs cut, row.seq < cursor.val) →
      ledger.scanned anchorMs cut cursor = ledger.eligible anchorMs cut :=
    fun habove => filter_eq_self.mpr fun row hrow => decide_eq_true (habove row hrow)
  have hone : (1 : I64).val = 1 := rfl
  obtain ⟨next, hnext⟩ : ∃ next, ledger.acceptedCutoff.checkedAdd 1 = some next := by
    have hlower := ledger.acceptedCutoff.lower
    have hcutoff := h.cutoff
    exact Signed.ofInt?_isSome.mpr ⟨by omega, by omega⟩
  cases cut with
  | none =>
    refine ⟨next, by rw [scanCursor, hnext, okOr_some], hall fun row hrow => ?_⟩
    obtain ⟨hmem, helig⟩ := mem_filter.mp hrow
    simp only [ShareRow.windowEligible, ShareRow.anchored, Bool.and_eq_true] at helig
    have hle := le_acceptedCutoff hmem helig.1.1.1
    have hval := Signed.checkedAdd_eq_some.mp hnext
    omega
  | some cut =>
    cases htop : cut.top with
    | none =>
      refine ⟨1, by simp only [scanCursor, hnext, okOr_some, ok_bind, htop]; rfl, hall ?_⟩
      rw [eligible_eq_nil htop]
      exact fun row hrow => nomatch hrow
    | some top =>
      have hlt := h.entries cut rfl top htop
      obtain ⟨signed, hsigned⟩ : ∃ signed : I64, signed.val = top.val :=
        ⟨⟨top.val, by omega, by omega⟩, rfl⟩
      refine ⟨Signed.wrapping (signed.val + 1), ?_, hall fun row hrow => ?_⟩
      · simp only [scanCursor, hnext, okOr_some, ok_bind, htop, toI64_eq_ok.mpr hsigned]
        rfl
      · obtain ⟨other, hother, hle⟩ := eligible_le_top hrow
        obtain rfl : top = other := Option.some.inj (htop.symm.trans hother)
        rw [Signed.wrapping_val (by omega) (by omega)]
        omega

end Window

/-- The proof of a window accepts exactly what the full scan collects over the ledger; of a window
that is not in the ledger, exactly the absence of eligible rows. The scan has to start above the
newest row, so the last sequence number must not be in use. -/
theorem verifyDurableRange_canonical (ledger : ShareLedger) (snapshot : AuditSnapshotWrite L)
    (hof : snapshot.OfShares) :
    (snapshot.inlineShares = none → 0 < snapshot.networkDifficulty.val → SequencesLeft ledger snapshot.cut →
      ∀ weight : U128, weight.val = 8 * snapshot.networkDifficulty.val →
      (verifyDurableRange ledger snapshot = .ok () ↔
        fullScan ledger snapshot.anchorMs ledger.acceptedCutoff snapshot.cut weight = .ok snapshot.shares)) ∧
    (snapshot.inlineShares.isSome → (∀ cut ∈ snapshot.cut, ∀ top ∈ cut.top, top.val < 2 ^ 63) →
      (verifyDurableRange ledger snapshot = .ok () ↔
        ∀ row ∈ ledger.rows, ¬row.windowEligible snapshot.anchorMs snapshot.cut)) := by
  obtain ⟨share, shares, hshares⟩ : ∃ share shares, snapshot.shares = share :: shares := by
    cases hcases : snapshot.shares with
    | nil =>
      have hfirst := hof.first
      rw [hcases] at hfirst
      cases hfirst
    | cons share shares => exact ⟨share, shares, rfl⟩
  constructor
  · intro hinline hpositive hleft weight hweight
    have hmul : snapshot.networkDifficulty.checkedMul prismWindowMultiplier = some weight :=
      Unsigned.checkedMul_eq_some.mpr (by rw [hweight, Nat.mul_comm]; rfl)
    have hne : weight ≠ 0 := by
      rintro rfl
      rw [Unsigned.val_zero] at hweight
      omega
    have hbind : bindCut snapshot.cut = .ok () :=
      bindCut_of_top fun c hc top htop => (hleft.entries c hc top htop).trans (by norm_num)
    obtain ⟨cursor, hcursor, hscanned⟩ := hleft.scanned snapshot.anchorMs
    have hfirst : (share.shareSeq.val : ℤ) = snapshot.firstShareSeq.val := by
      simpa [hshares] using hof.first
    have hlast : ((share :: shares).map fun share => (share.shareSeq.val : ℤ)).getLast? =
        some snapshot.lastShareSeq.val := by
      rw [List.getLast?_map, ← hshares]
      exact hof.last
    rw [verifyDurableRange_eq_ok hinline hof hmul hne hshares, hshares, fullScan_eq_ok hne,
      range_iff_newest (ledger.eligible_ascending _ _) hfirst hlast, ← decoded_take_iff]
    constructor
    · rintro ⟨-, hdecoded⟩
      exact ⟨cursor, hcursor, hbind, hscanned ▸ hdecoded⟩
    · rintro ⟨start, hstart, -, hdecoded⟩
      obtain rfl : cursor = start := Except.ok.inj (hcursor.symm.trans hstart)
      exact ⟨hbind, hscanned ▸ hdecoded⟩
  · intro hinline htop
    have hcount : 0 < snapshot.shareCount.val := by
      rw [hof.count, hshares, length_cons]
      omega
    rw [verifyDurableRange_inline hinline hcount (bindCut_of_top htop), ShareLedger.eligible, filter_eq_nil_iff]

def ledgerRow (seq : I64) (difficulty : ℕ) (originNode : ℕ) : ShareRow where
  shareSeq := seq
  shareId := s!"share-{seq.val}"
  minerId := "alice"
  payoutOrderKey := "alice"
  program := "aa"
  shareDifficulty := difficulty
  networkDifficulty := 1
  templateHeight := 100
  jobId := "job"
  jobIssuedAt := 1000
  acceptedAt := 2000
  ntime := 7
  creditPolicy := none
  accepted := true
  originNode
  tableoid := 1

def ledgerShare (seq : U64) (difficulty : U128) : AcceptedShare where
  shareSeq := seq
  shareId := s!"share-{seq.val}"
  minerId := "alice"
  orderKey := "alice"
  p2mrProgramHex := "aa"
  shareDifficulty := difficulty
  networkDifficulty := 1
  templateHeight := 100
  jobId := "job"
  jobIssuedAtMs := 1
  acceptedAtMs := 2
  ntime := 7
  creditPolicy := none

/-- Two nodes' rows, one of them stamped after the anchor the samples use. -/
def sampleLedger : ShareLedger where
  rows := [ledgerRow 1 5 0, ledgerRow 2 5 1, ledgerRow 3 5 0, { ledgerRow 4 5 1 with acceptedAt := 9000 }]
  ascending := by decide

def sampleSnapshot (cut : Option WindowCut) : AuditSnapshotWrite Unit where
  digest := ""
  firstShareSeq := 2
  lastShareSeq := 3
  anchorMs := 5
  networkDifficulty := 1
  shareCount := 2
  inlineShares := none
  cut
  shares := [ledgerShare 2 5, ledgerShare 3 5]

def sampleCut : WindowCut := ⟨some 3, some 2, by decide, by decide⟩

theorem verifyDurableRange_canonical_two :
    (sampleSnapshot (some sampleCut)).OfShares ∧
    SequencesLeft sampleLedger (some sampleCut) ∧
    fullScan sampleLedger 5 sampleLedger.acceptedCutoff (some sampleCut) 8 =
      .ok [ledgerShare 2 5, ledgerShare 3 5] := by
  have hof : (sampleSnapshot (some sampleCut)).OfShares := ⟨by decide, by decide, by decide, by decide⟩
  have hleft : SequencesLeft sampleLedger (some sampleCut) := by
    refine ⟨by decide +kernel, fun c hc top htop => ?_⟩
    obtain rfl : sampleCut = c := Option.some.inj hc
    obtain rfl : (3 : U64) = top := Option.some.inj htop
    decide
  obtain ⟨⟨⟩, hverified⟩ := exists_of_isOk
    (x := verifyDurableRange sampleLedger (sampleSnapshot (some sampleCut))) (by decide +kernel)
  exact ⟨hof, hleft,
    ((verifyDurableRange_canonical sampleLedger _ hof).1 rfl (by decide) hleft 8 (by decide)).mp hverified⟩

/-- A cut that reaches to the last sequence number there is: the scan starts one above it, which
wraps, and collects nothing, while the proof accepts. Beyond it the cut is refused, even for an
inline window over an empty ledger. -/
theorem verifyDurableRange_last_sequence :
    (∃ cut : WindowCut, (sampleSnapshot (some cut)).OfShares ∧
      verifyDurableRange sampleLedger (sampleSnapshot (some cut)) = .ok () ∧
      fullScan sampleLedger 5 sampleLedger.acceptedCutoff (some cut) 8 = .ok []) ∧
    ∃ cut : WindowCut, verifyDurableRange ⟨[], List.Pairwise.nil⟩
      { sampleSnapshot (some cut) with inlineShares := some (.leaf ()) } ≠ .ok () := by
  constructor
  · refine ⟨⟨some 9223372036854775807, some 2, by decide, by decide⟩,
      ⟨by decide, by decide, by decide, by decide⟩, ?_, ?_⟩
    · obtain ⟨⟨⟩, hverified⟩ := exists_of_isOk (x := verifyDurableRange sampleLedger (sampleSnapshot
        (some ⟨some 9223372036854775807, some 2, by decide, by decide⟩))) (by decide +kernel)
      exact hverified
    · obtain ⟨shares, hscan, hshares⟩ := exists_of_any (x := fullScan sampleLedger 5
        sampleLedger.acceptedCutoff (some ⟨some 9223372036854775807, some 2, by decide, by decide⟩) 8)
        (p := fun shares => shares = []) (by decide +kernel)
      rw [hscan, of_decide_eq_true hshares]
  · refine ⟨⟨some 9223372036854775808, none, by decide, by decide⟩, fun h => ?_⟩
    have hnot : (verifyDurableRange ⟨[], List.Pairwise.nil⟩ { sampleSnapshot
        (some ⟨some 9223372036854775808, none, by decide, by decide⟩) with
          inlineShares := some (.leaf ()) }).isOk = false := by decide +kernel
    rw [h] at hnot
    cases hnot

end QbitPrism
