import Mathlib
import QbitPrism.Window.Advance

/-!
# Runs of advances, and building from a window

Every advance keeps what a window holds, by the pages it appends and expires. After a run the
window is the full fold of everything that was ever eligible; and since it holds the newest
shares that reach its weight, counting shares for a payout from it or from the whole snapshot
is the same.
-/
namespace QbitPrism
open MachineInt Checked SortBy ByteReader List

section Append
variable {window : PayoutWindow} {delta : List AcceptedShare}

theorem zipWith_fromRetained (chunked : List (List AcceptedShare)) :
    List.zipWith WindowPage.fromRetained chunked
      (chunked.map (List.map canonicalShareFragment)) = chunked.map WindowPage.fromRecords := by
  rw [zipWith_map_right, zipWith_self]
  rfl

theorem appendedPages_eq (size merge : ℕ) (delta : List AcceptedShare) :
    List.zipWith WindowPage.fromRetained (chunks size (delta.drop merge).length (delta.drop merge))
      (chunks size ((delta.map canonicalShareFragment).drop merge).length
        ((delta.map canonicalShareFragment).drop merge)) =
      (chunks size (delta.drop merge).length (delta.drop merge)).map WindowPage.fromRecords := by
  rw [← map_drop, length_map, chunks_map, zipWith_fromRetained]

theorem appendPages_valid (hsize : window.pageSize ≠ 0) (hvalid : ∀ page ∈ window.pages, page.Valid)
    (hfit : Crossing.weight AcceptedShare.difficulty (pageRecords window.pages ++ delta) < 2 ^ 128) :
    (∀ page ∈ window.appendPages delta (delta.map canonicalShareFragment), page.Valid) ∧
      pageRecords (window.appendPages delta (delta.map canonicalShareFragment)) =
        pageRecords window.pages ++ delta := by
  rw [Crossing.weight_append] at hfit
  have hdelta : ∀ merge, Crossing.weight AcceptedShare.difficulty (delta.take merge) +
      Crossing.weight AcceptedShare.difficulty (delta.drop merge) =
        Crossing.weight AcceptedShare.difficulty delta := by
    intro merge
    rw [← Crossing.weight_append, take_append_drop]
  simp only [PayoutWindow.appendPages, appendedPages_eq]
  cases hlast : window.pages.getLast? with
  | none =>
    have hmerge : window.mergeCount delta.length = 0 := by
      rw [PayoutWindow.mergeCount, hlast]
    have hempty := List.getLast?_eq_none_iff.mp hlast
    have hdeltaFit : Crossing.weight AcceptedShare.difficulty delta < 2 ^ 128 := by omega
    obtain ⟨hpages, hrecords⟩ := pages_of_chunks hsize hdeltaFit
    rw [hmerge, drop_zero, hempty, nil_append, hrecords]
    exact ⟨hpages, rfl⟩
  | some last =>
    obtain ⟨before, hbefore⟩ := List.getLast?_eq_some_iff.mp hlast
    generalize window.mergeCount delta.length = merge
    have hsplit := hdelta merge
    have hrestFit : Crossing.weight AcceptedShare.difficulty (delta.drop merge) < 2 ^ 128 := by omega
    obtain ⟨hpages, hrecords⟩ := pages_of_chunks hsize hrestFit
    rw [hbefore] at hvalid hfit ⊢
    have hlastValid := hvalid last (by simp)
    split_ifs with hzero
    · rw [pageRecords_append, hrecords, hzero, drop_zero]
      refine ⟨?_, rfl⟩
      intro page hpage
      rcases mem_append.mp hpage with hpage | hpage
      · exact hvalid page hpage
      · exact hpages page (hzero ▸ hpage)
    · have hmerged : (WindowPage.fromRetained (last.records ++ delta.take merge)
          (last.fragments ++ (delta.map canonicalShareFragment).take merge)).Valid := by
        refine WindowPage.valid_fromRetained (by simp [hlastValid.nonempty]) ?_ ?_
        · rw [map_append, map_take, hlastValid.encoded]
        · rw [Crossing.weight_append]
          rw [pageRecords_append, Crossing.weight_append, pageRecords_cons, Crossing.weight_append] at hfit
          omega
      rw [dropLast_concat]
      constructor
      · intro page hpage
        rcases mem_append.mp hpage with hpage | hpage
        · rcases mem_append.mp hpage with hpage | hpage
          · exact hvalid page (mem_append_left _ hpage)
          · exact mem_singleton.mp hpage ▸ hmerged
        · exact hpages page hpage
      · simp only [pageRecords_append, pageRecords_cons, hrecords]
        show pageRecords before ++ (last.records ++ delta.take merge ++ pageRecords []) ++
          delta.drop merge = pageRecords before ++ (last.records ++ pageRecords []) ++ delta
        simp only [show pageRecords [] = [] from rfl, append_nil, append_assoc, take_append_drop]

end Append

variable {anchor : I64} {advanced : PayoutWindow} {foundBlock : FoundBlock} {shares ascending : List AcceptedShare}

theorem checkDelta_fold {window : PayoutWindow} {priorSeq prior last : Option U64} {delta : List AcceptedShare}
    (h : delta.foldlM (window.checkDelta priorSeq anchor) prior = .ok last) :
    (∀ record ∈ delta, record.shareDifficulty ≠ 0 ∧ record.eligible anchor ∧
        (∀ p ∈ priorSeq, p.val < record.shareSeq.val) ∧
        ∀ p ∈ prior, p.val < record.shareSeq.val) ∧
      delta.Pairwise fun a b => a.shareSeq.val < b.shareSeq.val := by
  induction delta generalizing prior with
  | nil => exact ⟨by simp, .nil⟩
  | cons record delta ih =>
    simp only [foldlM_cons, PayoutWindow.checkDelta, bind_eq_ok, require_eq_ok, pure_eq_ok] at h
    obtain ⟨_, ⟨-, hpositive, -, heligible, -, -, -, hseq, -, hprior, rfl⟩, hrest⟩ := h
    obtain ⟨hall, hascending⟩ := ih hrest
    constructor
    · refine forall_mem_cons.mpr ⟨⟨hpositive, heligible, hseq, hprior⟩, ?_⟩
      intro other hother
      obtain ⟨hpositive', heligible', hseq', hlater⟩ := hall other hother
      exact ⟨hpositive', heligible', hseq', fun p hp => (hprior p hp).trans (hlater _ rfl)⟩
    · exact pairwise_cons.mpr ⟨fun other hother => (hall other hother).2.2.2 _ rfl, hascending⟩

theorem getLast?_pageRecords {pages : List WindowPage} (h : ∀ page ∈ pages, page.Valid) :
    (pageRecords pages).getLast? = pages.getLast?.bind (·.records.getLast?) := by
  cases hlast : pages.getLast? with
  | none =>
    rw [List.getLast?_eq_none_iff.mp hlast]
    rfl
  | some last =>
    obtain ⟨before, rfl⟩ := List.getLast?_eq_some_iff.mp hlast
    have hne := (h last (by simp)).nonempty
    rw [pageRecords_append, pageRecords_cons, show pageRecords [] = [] from rfl, append_nil,
      List.getLast?_append_of_ne_nil _ hne]
    rfl

theorem PayoutWindow.Holds.getLast? {window : PayoutWindow} {history : List AcceptedShare}
    (h : window.Holds history) : (pageRecords window.pages).getLast? = history.getLast? := by
  rw [← List.head?_reverse, ← List.head?_reverse, h.newest]
  cases history.reverse with
  | nil => rfl
  | cons newest older =>
    have hpos := h.weight_pos
    rw [Crossing.take_cons (by omega)]
    rfl

/-- Everything a window has been given, as it stands after an anchor. -/
structure History (anchor : I64) (history : List AcceptedShare) : Prop where
  ascending : history.Pairwise fun a b => a.shareSeq.val < b.shareSeq.val
  positive : ∀ record ∈ history, record.shareDifficulty ≠ 0
  eligible : ∀ record ∈ history, record.eligible anchor

theorem AcceptedShare.eligible.mono {record : AcceptedShare} {later : I64} (h : record.eligible anchor)
    (hle : anchor.val ≤ later.val) : record.eligible later :=
  ⟨h.1.trans hle, h.2.trans hle⟩

theorem advance_holds {window : PayoutWindow} {history delta : List AcceptedShare} {stats : WindowAdvanceStats}
    {bytes : WindowAdvanceByteDelta} (hholds : window.Holds history)
    (hhistory : History window.anchorJobIssuedAtMs history)
    (h : window.advance delta anchor = .ok (advanced, stats, bytes)) :
    advanced.Holds (history ++ delta) ∧ History anchor (history ++ delta) ∧
      advanced.anchorJobIssuedAtMs = anchor ∧ advanced.windowWeight = window.windowWeight ∧
      advanced.pageSize = window.pageSize := by
  simp only [PayoutWindow.advance, bind_eq_ok, require_eq_ok, okOr_eq_ok, pure_eq_ok,
    Unsigned.checkedSum_eq_some, Unsigned.checkedAdd_eq_some] at h
  obtain ⟨-, hanchor, last, hcheck, deltaDifficulty, hdelta, combined, hcombined,
    ⟨firstRetained, pageTotal⟩, hpages, ⟨retained, final, partialExpired⟩, hrecords, hresult⟩ := h
  obtain ⟨rfl, -⟩ := Prod.mk.inj hresult
  obtain ⟨hall, hascending⟩ := checkDelta_fold hcheck
  have hdeltaWeight : deltaDifficulty.val = Crossing.weight AcceptedShare.difficulty delta := by
    rw [hdelta, map_map]
    rfl
  have htotal : combined.val =
      Crossing.weight AcceptedShare.difficulty (pageRecords window.pages ++ delta) := by
    rw [hcombined, hholds.total, hdeltaWeight, Crossing.weight_append]
  obtain ⟨hvalid, hrecordsEq⟩ := appendPages_valid hholds.size_ne hholds.valid (htotal ▸ combined.isLt)
  obtain ⟨hretained, hfinal, hnewest⟩ := expire_eq_ok hholds.weight_pos hvalid
    (by rw [hrecordsEq, htotal]) hpages hrecords
  refine ⟨⟨hholds.weight_pos, hholds.size_ne, hretained, hfinal, ?_⟩, ⟨?_, ?_, ?_⟩, rfl, rfl, rfl⟩
  · dsimp only
    rw [hnewest, hrecordsEq, reverse_append, reverse_append, hholds.newest, Crossing.take_append_take]
  · refine pairwise_append.mpr ⟨hhistory.ascending, hascending, ?_⟩
    -- The delta comes after the newest record of the window, which is the newest of all.
    intro a ha b hb
    have hlast := hholds.getLast?
    obtain ⟨before, newest, rfl⟩ := (eq_nil_or_concat' history).resolve_left
      (ne_nil_of_mem ha)
    rw [List.getLast?_concat, getLast?_pageRecords hholds.valid] at hlast
    have hafter := (hall b hb).2.2.1 newest.shareSeq (by rw [hlast]; rfl)
    rcases mem_append.mp ha with ha | ha
    · exact (pairwise_append.mp hhistory.ascending).2.2 a ha newest (by simp) |>.trans hafter
    · rw [mem_singleton.mp ha]
      exact hafter
  · intro record hrecord
    rcases mem_append.mp hrecord with hrecord | hrecord
    · exact hhistory.positive record hrecord
    · exact (hall record hrecord).1
  · intro record hrecord
    rcases mem_append.mp hrecord with hrecord | hrecord
    · exact (hhistory.eligible record hrecord).mono hanchor
    · exact (hall record hrecord).2.1

def PayoutWindow.advanceRun (window : PayoutWindow) (steps : List (List AcceptedShare × I64)) :
    Except WindowAdvanceError PayoutWindow :=
  steps.foldlM (fun current step => do
    let (advanced, _, _) ← current.advance step.1 step.2
    pure advanced) window

def lastAnchor (anchor : I64) (steps : List (List AcceptedShare × I64)) : I64 :=
  (steps.getLast?.map Prod.snd).getD anchor

theorem advanceRun_holds {window : PayoutWindow} {history : List AcceptedShare}
    {steps : List (List AcceptedShare × I64)} (hholds : window.Holds history)
    (hhistory : History window.anchorJobIssuedAtMs history) (h : window.advanceRun steps = .ok advanced) :
    advanced.Holds (history ++ steps.flatMap Prod.fst) ∧
      History (lastAnchor window.anchorJobIssuedAtMs steps) (history ++ steps.flatMap Prod.fst) ∧
      advanced.windowWeight = window.windowWeight ∧ advanced.pageSize = window.pageSize := by
  have hrun := foldlM_ok_induction (fun done current =>
    current.Holds (history ++ done.flatMap Prod.fst) ∧
      current.anchorJobIssuedAtMs = lastAnchor window.anchorJobIssuedAtMs done ∧
      History (lastAnchor window.anchorJobIssuedAtMs done) (history ++ done.flatMap Prod.fst) ∧
      current.windowWeight = window.windowWeight ∧ current.pageSize = window.pageSize)
    ⟨by simpa using hholds, rfl, by simpa [lastAnchor] using hhistory, rfl, rfl⟩ ?_ h
  · exact ⟨hrun.1, hrun.2.2⟩
  · rintro done ⟨delta, anchor⟩ current next ⟨hcurrent, hanchor, hpast, hweight, hsize⟩ hstep
    simp only [bind_eq_ok, pure_eq_ok] at hstep
    obtain ⟨⟨_, stats, bytes⟩, hadvance, rfl⟩ := hstep
    obtain ⟨hnext, hnow, hanchor', hweight', hsize'⟩ :=
      advance_holds hcurrent (hanchor ▸ hpast) hadvance
    have hflat : history ++ (done ++ [(delta, anchor)]).flatMap Prod.fst =
        (history ++ done.flatMap Prod.fst) ++ delta := by
      simp
    have hlast : lastAnchor window.anchorJobIssuedAtMs (done ++ [(delta, anchor)]) = anchor := by
      rw [lastAnchor, List.getLast?_concat]
      rfl
    rw [hflat, hlast]
    exact ⟨hnext, hanchor', hnow, hweight'.trans hweight, hsize'.trans hsize⟩

theorem Ordered.history {records : List AcceptedShare} (h : Ordered (eligibleRecords records anchor)) :
    History anchor (eligibleRecords records anchor) where
  ascending := h.ascending
  positive := h.positive
  eligible record hrecord := by
    rw [eligibleRecords, mem_sortBy, mem_filter] at hrecord
    exact of_decide_eq_true hrecord.2

/-- Advancing a window by any run of deltas gives the window a full fold of everything gives. -/
theorem advanceRun_eq_rebuild (crypto : Crypto) {snapshot : List AcceptedShare} {anchor : I64} {windowWeight : U128}
    {pageSize : ℕ} {window advanced : PayoutWindow} {steps : List (List AcceptedShare × I64)}
    (hfull : PayoutWindow.fromFullSnapshot snapshot anchor windowWeight pageSize = .ok window)
    (hrun : window.advanceRun steps = .ok advanced)
    (hids : ((snapshot.filter (·.eligible anchor) ++ steps.flatMap Prod.fst).map (·.shareId)).Nodup) :
    ∃ rebuilt, PayoutWindow.fromFullSnapshot
        (snapshot.filter (·.eligible anchor) ++ steps.flatMap Prod.fst) (lastAnchor anchor steps)
        windowWeight pageSize = .ok rebuilt ∧
      rebuilt.sharesForBuild = advanced.sharesForBuild ∧
      rebuilt.totalDifficulty = advanced.totalDifficulty ∧
      rebuilt.canonicalDigestHex crypto = advanced.canonicalDigestHex crypto := by
  obtain ⟨hholds, hordered, rfl, rfl, rfl⟩ := fromFullSnapshot_eq_ok hfull
  obtain ⟨hadvanced, hhistory, hweight, -⟩ := advanceRun_holds hholds hordered.history hrun
  set history := eligibleRecords snapshot window.anchorJobIssuedAtMs ++ steps.flatMap Prod.fst
  have hperm : history.Perm
      (snapshot.filter (·.eligible window.anchorJobIssuedAtMs) ++ steps.flatMap Prod.fst) :=
    (sortBy_perm shareSeqCmp _).append_right _
  -- Everything given so far is eligible at the last anchor, so the fold keeps all of it.
  have hall : eligibleRecords (snapshot.filter (·.eligible window.anchorJobIssuedAtMs) ++
      steps.flatMap Prod.fst) (lastAnchor window.anchorJobIssuedAtMs steps) = history := by
    rw [eligibleRecords, filter_eq_self.mpr]
    · exact sortBy_shareSeq hperm hhistory.ascending
    · intro record hrecord
      exact decide_eq_true (hhistory.eligible record (hperm.mem_iff.mpr hrecord))
  have hfits : Ordered history :=
    ⟨hhistory.ascending, (hperm.map _).nodup_iff.mpr hids, hhistory.positive⟩
  have hfit : Crossing.weight AcceptedShare.difficulty (Crossing.take AcceptedShare.difficulty
      window.windowWeight.val history.reverse) < 2 ^ 128 := by
    rw [← hweight, ← hadvanced.newest, Crossing.weight_reverse, ← hadvanced.total]
    exact advanced.totalDifficulty.isLt
  have hpos : window.windowWeight ≠ 0 := by
    intro hzero
    have hne := hholds.weight_pos
    rw [hzero, Unsigned.val_zero] at hne
    exact lt_irrefl 0 hne
  obtain ⟨rebuilt, hrebuilt⟩ := fromFullSnapshot_isOk hpos hholds.size_ne (hall ▸ hfits) (hall ▸ hfit)
  obtain ⟨hrebuiltHolds, -, -, hrebuiltWeight, -⟩ := fromFullSnapshot_eq_ok hrebuilt
  rw [hall] at hrebuiltHolds
  have hsame := hrebuiltWeight.trans hweight.symm
  obtain ⟨hrecords, htotal⟩ := hadvanced.unique hrebuiltHolds hsame
  exact ⟨rebuilt, hrebuilt, hrecords, htotal, hadvanced.digest hrebuiltHolds hsame crypto⟩

/-- A share with a sequence number, a difficulty and its two times. -/
def windowShare (seq : U64) (difficulty : U128) (jobMs acceptedMs : I64) : AcceptedShare where
  shareSeq := seq
  shareId := s!"share-{seq.val}"
  minerId := "miner"
  orderKey := "miner"
  p2mrProgramHex := "aa"
  shareDifficulty := difficulty
  networkDifficulty := 1
  templateHeight := 100
  jobId := "job"
  jobIssuedAtMs := jobMs
  acceptedAtMs := acceptedMs
  ntime := 0
  creditPolicy := none

def windowSnapshot : List AcceptedShare :=
  [windowShare 1 5 9 9, windowShare 2 1 9 9, windowShare 3 2 11 9, windowShare 4 3 10 10]

def windowSteps : List (List AcceptedShare × I64) :=
  [([windowShare 5 2 11 9, windowShare 6 4 9 11], 11), ([], 11), ([windowShare 8 3 12 12], 12)]

theorem advanceRun_eq_rebuild_two_deltas :
    ∃ window advanced rebuilt, PayoutWindow.fromFullSnapshot windowSnapshot 10 9 2 = .ok window ∧
      window.advanceRun windowSteps = .ok advanced ∧
      PayoutWindow.fromFullSnapshot
        (windowSnapshot.filter (·.eligible 10) ++ windowSteps.flatMap Prod.fst) 12 9 2 = .ok rebuilt ∧
      rebuilt.sharesForBuild = advanced.sharesForBuild := by
  have hok : (PayoutWindow.fromFullSnapshot windowSnapshot 10 9 2).isOk = true := by decide +kernel
  obtain ⟨window, hwindow⟩ := exists_of_isOk hok
  have hrunOk : ((PayoutWindow.fromFullSnapshot windowSnapshot 10 9 2).toOption.any fun w =>
      (w.advanceRun windowSteps).isOk) = true := by decide +kernel
  rw [hwindow] at hrunOk
  obtain ⟨advanced, hadvanced⟩ := exists_of_isOk hrunOk
  obtain ⟨rebuilt, hrebuilt, hrecords, -⟩ :=
    advanceRun_eq_rebuild constantCrypto hwindow hadvanced (by decide +kernel)
  exact ⟨window, advanced, rebuilt, hwindow, hadvanced, hrebuilt, hrecords⟩

theorem admitShare_fold {seen ids : List String} {before eligible : List AcceptedShare} :
    shares.foldlM (admitShare foundBlock none) (seen, before) = .ok (ids, eligible) ↔
      ((∀ share ∈ shares, share.shareDifficulty ≠ 0) ∧ (∀ share ∈ shares, share.shareId ∉ seen) ∧
        (shares.map (·.shareId)).Nodup) ∧
      ids = (shares.map (·.shareId)).reverse ++ seen ∧
      eligible = before ++ shares.filter (·.eligible foundBlock.anchorJobIssuedAtMs) := by
  induction shares generalizing seen before with
  | nil =>
    simp only [foldlM_nil, pure_eq_ok, Prod.mk.injEq, map_nil, reverse_nil, nil_append, filter_nil, append_nil]
    constructor
    · rintro ⟨rfl, rfl⟩
      exact ⟨⟨by simp, by simp, .nil⟩, rfl, rfl⟩
    · rintro ⟨-, rfl, rfl⟩
      exact ⟨rfl, rfl⟩
  | cons share shares ih =>
    have hreaches : WindowCut.reaches none share.shareSeq := by simp [WindowCut.reaches]
    have hstep : admitShare foundBlock none (seen, before) share =
        (do require (share.shareDifficulty ≠ 0) (.zeroShareDifficulty share.shareSeq)
            require (share.shareId ∉ seen) (.duplicateShareId share.shareId)
            pure (share.shareId :: seen, before ++ [share].filter
              (·.eligible foundBlock.anchorJobIssuedAtMs))) := by
      simp only [admitShare, require_of hreaches, ok_bind]
      by_cases heligible : share.eligible foundBlock.anchorJobIssuedAtMs
      · simp [heligible]
      · simp [heligible]
    simp only [foldlM_cons, hstep, bind_eq_ok, require_eq_ok, pure_eq_ok]
    constructor
    · rintro ⟨_, ⟨-, hpositive, -, hid, rfl⟩, hrest⟩
      obtain ⟨⟨hpositives, hids, hnodup⟩, rfl, rfl⟩ := ih.mp hrest
      refine ⟨⟨forall_mem_cons.mpr ⟨hpositive, hpositives⟩, forall_mem_cons.mpr
        ⟨hid, fun other hother hmem => hids other hother (mem_cons_of_mem _ hmem)⟩, ?_⟩, ?_, ?_⟩
      · refine nodup_cons.mpr ⟨?_, hnodup⟩
        intro hmem
        obtain ⟨other, hother, heq⟩ := mem_map.mp hmem
        exact hids other hother (heq ▸ mem_cons_self)
      · simp
      · rw [append_assoc, ← filter_append, singleton_append]
    · rintro ⟨⟨hpositives, hids, hnodup⟩, rfl, rfl⟩
      obtain ⟨hnew, hnodup⟩ := nodup_cons.mp hnodup
      refine ⟨_, ⟨(), hpositives share mem_cons_self, (), hids share mem_cons_self, rfl⟩,
        ih.mpr ⟨⟨fun other hother => hpositives other (mem_cons_of_mem _ hother), ?_, hnodup⟩,
          ?_, ?_⟩⟩
      · intro other hother hmem
        rcases mem_cons.mp hmem with heq | hmem
        · exact hnew (mem_map.mpr ⟨other, hother, heq⟩)
        · exact hids other (mem_cons_of_mem _ hother) hmem
      · simp
      · rw [append_assoc, ← filter_append, singleton_append]

theorem pairwise_of_pairwiseSeq {r : ℕ → ℕ → Bool} (htrans : ∀ a b c, r a b → r b c → r a c)
    (h : pairwiseSeq r shares = true) : shares.Pairwise fun a b => r a.shareSeq.val b.shareSeq.val = true := by
  induction shares with
  | nil => exact .nil
  | cons share shares ih =>
    cases shares with
    | nil => exact pairwise_singleton _ _
    | cons next shares =>
      simp only [pairwiseSeq, tail_cons, zip_cons_cons, all_cons, Bool.and_eq_true] at h
      obtain ⟨hfirst, hrest⟩ := h
      have hpairwise := ih hrest
      refine pairwise_cons.mpr ⟨?_, hpairwise⟩
      intro other hother
      rcases mem_cons.mp hother with rfl | hother
      · exact hfirst
      · exact htrans _ _ _ hfirst ((pairwise_cons.mp hpairwise).1 other hother)

theorem newestFirst_eq (hperm : ascending.Perm shares)
    (h : ascending.Pairwise fun a b => a.shareSeq.val < b.shareSeq.val) : newestFirst shares = ascending.reverse := by
  have hunique : ∀ {other : List AcceptedShare}, other.Perm shares →
      other.Pairwise (fun a b => b.shareSeq.val ≤ a.shareSeq.val) → other = ascending.reverse := by
    intro other hother hdescending
    refine List.Perm.eq_of_pairwise ?_ hdescending (pairwise_reverse.mpr (h.imp fun hlt => hlt.le))
      (hother.trans (hperm.symm.trans (reverse_perm ascending).symm))
    intro a b ha hb hba hab
    exact Ordered.eq_of_seq h (hperm.mem_iff.mpr (hother.mem_iff.mp ha)) (mem_reverse.mp hb)
      (le_antisymm hab hba)
  unfold newestFirst
  split_ifs with hup hdown
  · refine hunique (reverse_perm shares) (pairwise_reverse.mpr ?_)
    exact (pairwise_of_pairwiseSeq (by simp; omega) hup).imp fun hlt => (of_decide_eq_true hlt).le
  · refine hunique (List.Perm.refl shares) ?_
    exact (pairwise_of_pairwiseSeq (by simp; omega) hdown).imp fun hlt => (of_decide_eq_true hlt).le
  · have : Std.TransCmp fun a b : AcceptedShare => compare b.shareSeq.val a.shareSeq.val :=
      transCmp_comap (fun a b : ℕ => compare b a) fun share : AcceptedShare => share.shareSeq.val
    refine hunique (sortBy_perm _ shares) ((sortBy_pairwise _ shares).imp ?_)
    intro a b hle
    exact Nat.isLE_compare.mp hle

theorem countShares_take (remaining : U128) {windowWeight : ℕ} (hle : remaining.val ≤ windowWeight)
    (shares : List AcceptedShare) :
    countShares remaining (Crossing.take AcceptedShare.difficulty windowWeight shares) =
      countShares remaining shares := by
  induction shares generalizing remaining windowWeight with
  | nil => rfl
  | cons share shares ih =>
    by_cases hzero : remaining = 0
    · cases hwindow : Crossing.take AcceptedShare.difficulty windowWeight (share :: shares) with
      | nil | cons => simp [countShares, hzero]
    · have hpos : remaining.val ≠ 0 := fun h0 => hzero (Unsigned.ext (h0.trans Unsigned.val_zero.symm))
      rw [Crossing.take_cons (by omega), countShares, countShares, if_neg hzero, if_neg hzero]
      refine congrArg _ (ih _ ?_)
      rw [Unsigned.saturatingSub]
      simp only [AcceptedShare.difficulty]
      split_ifs with hfits
      · omega
      · omega

theorem eligibleWindow_of_ascending (hdifficulty : foundBlock.networkDifficulty ≠ 0) {requested : U128}
    (hrequested : requested.val = foundBlock.networkDifficulty.val * 8)
    (hpositive : ∀ share ∈ shares, share.shareDifficulty ≠ 0) (hids : (shares.map (·.shareId)).Nodup)
    (hperm : ascending.Perm (shares.filter (·.eligible foundBlock.anchorJobIssuedAtMs)))
    (h : ascending.Pairwise fun a b => a.shareSeq.val < b.shareSeq.val) :
    eligibleWindow shares foundBlock none = .ok (ascending.reverse, requested) := by
  have hfold : shares.foldlM (admitShare foundBlock none) ([], []) =
      .ok ((shares.map (·.shareId)).reverse ++ [],
        [] ++ shares.filter (·.eligible foundBlock.anchorJobIssuedAtMs)) :=
    admitShare_fold.mpr ⟨⟨hpositive, fun _ _ => not_mem_nil, hids⟩, rfl, rfl⟩
  simp only [eligibleWindow, bind_eq_ok, require_eq_ok, okOr_eq_ok, pure_eq_ok, Prod.mk.injEq,
    Unsigned.checkedMul_eq_some]
  exact ⟨(), hdifficulty, _, hfold, requested, hrequested, newestFirst_eq hperm h, rfl⟩

/-- The payout of a window is the payout of the snapshot it was pruned from. -/
theorem computePrismWindow_pruned {snapshot : List AcceptedShare} {anchor : I64} {foundBlock : FoundBlock}
    {windowWeight : U128} {pageSize : ℕ} {window : PayoutWindow} {prism : PrismWindow}
    (hanchor : foundBlock.anchorJobIssuedAtMs = anchor)
    (hcompute : computePrismWindow snapshot foundBlock = .ok prism)
    (hfull : PayoutWindow.fromFullSnapshot snapshot anchor windowWeight pageSize = .ok window)
    (hweight : 8 * foundBlock.networkDifficulty.val ≤ windowWeight.val) :
    computePrismWindow window.sharesForBuild foundBlock = .ok prism := by
  subst hanchor
  obtain ⟨hholds, hordered, -, rfl, -⟩ := fromFullSnapshot_eq_ok hfull
  set eligible := eligibleRecords snapshot foundBlock.anchorJobIssuedAtMs
  rw [computePrismWindow, computePrismWindowInCut, bind_eq_ok] at hcompute
  obtain ⟨⟨counted, _⟩, hwindow, hcompute⟩ := hcompute
  have hsnapshot := hwindow
  simp only [eligibleWindow, bind_eq_ok, require_eq_ok, okOr_eq_ok, pure_eq_ok, Prod.mk.injEq,
    Unsigned.checkedMul_eq_some] at hsnapshot
  obtain ⟨-, hdifficulty, ⟨ids, admitted⟩, hfold, requested, hrequested, -, rfl⟩ := hsnapshot
  obtain ⟨⟨hpositive, -, hids⟩, -, -⟩ := admitShare_fold.mp hfold
  have hcounted := eligibleWindow_of_ascending hdifficulty hrequested hpositive hids
    (sortBy_perm shareSeqCmp _) hordered.ascending
  rw [hwindow] at hcounted
  -- The window's records are the newest end of the eligible ones.
  have hsuffix : window.sharesForBuild <:+ eligible := by
    rw [← reverse_prefix]
    have hprefix := Crossing.take_initial (w := AcceptedShare.difficulty) window.windowWeight.val
      eligible.reverse
    rwa [← hholds.newest] at hprefix
  have hmem : ∀ share ∈ window.sharesForBuild, share ∈ eligible :=
    fun _ hshare => hsuffix.subset hshare
  have hbuilt := eligibleWindow_of_ascending hdifficulty hrequested
    (fun share hshare => hordered.positive share (hmem share hshare))
    (hordered.ids.sublist (hsuffix.sublist.map _))
    (by
      rw [filter_eq_self.mpr]
      intro share hshare
      exact decide_eq_true (hordered.history.eligible share (hmem share hshare)))
    (hordered.ascending.sublist hsuffix.sublist)
  have hsame : countShares requested window.sharesForBuild.reverse =
      countShares requested eligible.reverse := by
    have hnewest : window.sharesForBuild.reverse = _ := hholds.newest
    rw [hnewest]
    exact countShares_take requested (by rw [hrequested]; show _ * 8 ≤ _; omega) _
  rw [computePrismWindow, computePrismWindowInCut, hbuilt, ok_bind]
  dsimp only at hcompute ⊢
  rw [hsame]
  obtain ⟨hcountedEq, -⟩ := Prod.mk.inj (Except.ok.inj hcounted)
  rw [hcountedEq] at hcompute
  exact hcompute

def windowBlock : FoundBlock :=
  { blockHeight := 100, coinbaseValueSats := 1, networkDifficulty := 1, anchorJobIssuedAtMs := 10 }

theorem computePrismWindow_pruned_small :
    ∃ window prism, PayoutWindow.fromFullSnapshot windowSnapshot 10 9 2 = .ok window ∧
      computePrismWindow windowSnapshot windowBlock = .ok prism ∧
      computePrismWindow window.sharesForBuild windowBlock = .ok prism := by
  have hok : (PayoutWindow.fromFullSnapshot windowSnapshot 10 9 2).isOk = true := by decide +kernel
  obtain ⟨window, hwindow⟩ := exists_of_isOk hok
  have hcompute : (computePrismWindow windowSnapshot windowBlock).isOk = true := by decide +kernel
  obtain ⟨prism, hprism⟩ := exists_of_isOk hcompute
  exact ⟨window, prism, hwindow, hprism,
    computePrismWindow_pruned rfl hprism hwindow (by decide)⟩

end QbitPrism
