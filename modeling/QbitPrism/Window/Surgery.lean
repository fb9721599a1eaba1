import Mathlib
import QbitPrism.Window.Rebuild

/-!
# The byte surgery of an advance

The coordinator mirrors a window as its canonical items, fragments joined with commas. An advance
drops a prefix of the records, the delta's among them, so the mirror loses a prefix of its bytes
and gains a suffix. What has to be right is the commas: a dropped fragment takes the one after it,
unless nothing of the old stream is left.
-/
namespace QbitPrism
open MachineInt Checked List

section Join
variable (xs ys : List (List UInt8))

theorem joinFragments_true : PayoutWindow.joinFragments true xs =
    (if xs = [] then [] else [0x2c]) ++ PayoutWindow.joinFragments false xs := by
  cases xs with
  | nil => rfl
  | cons x xs => simp [PayoutWindow.joinFragments]

theorem joinFragments_false_append : PayoutWindow.joinFragments false (xs ++ ys) =
    PayoutWindow.joinFragments false xs ++ PayoutWindow.joinFragments (0 < xs.length) ys := by
  cases xs with
  | nil => rfl
  | cons x xs =>
    rw [joinFragments_page (cons_ne_nil x xs)]
    simp

theorem length_joinFragments_true :
    (PayoutWindow.joinFragments true xs).length = (xs.map List.length).sum + xs.length := by
  induction xs with
  | nil => rfl
  | cons x xs ih =>
    simp only [PayoutWindow.joinFragments, if_true, length_append, length_cons, length_nil, map_cons, sum_cons, ih]
    omega

theorem length_joinFragments_false :
    (PayoutWindow.joinFragments false xs).length = (xs.map List.length).sum + (xs.length - 1) := by
  cases xs with
  | nil => rfl
  | cons x xs =>
    simp only [PayoutWindow.joinFragments, Bool.false_eq_true, if_false, nil_append, length_append,
      length_joinFragments_true, map_cons, sum_cons, length_cons]
    omega

theorem drop_joinFragments {count : ℕ} (hpos : 0 < count) (hcount : count < xs.length) :
    (PayoutWindow.joinFragments false xs).drop (((xs.map List.length).take count).sum + count) =
      PayoutWindow.joinFragments false (xs.drop count) := by
  have hne : xs.take count ≠ [] := by
    rw [Ne, take_eq_nil_iff]
    rintro (h | rfl)
    · omega
    · simp at hcount
  have hrest : xs.drop count ≠ [] := by
    rw [Ne, drop_eq_nil_iff]
    omega
  have hsplit : PayoutWindow.joinFragments false xs =
      (PayoutWindow.joinFragments false (xs.take count) ++ [0x2c]) ++
        PayoutWindow.joinFragments false (xs.drop count) := by
    conv_lhs => rw [← take_append_drop count xs]
    rw [joinFragments_page hne, joinFragments_true, if_neg hrest]
    simp
  rw [hsplit]
  apply drop_left'
  rw [length_append, length_joinFragments_false, map_take, length_take, length_singleton]
  omega

end Join

section Delta
variable {oldItems newItems : List (List UInt8)} {advanced : PayoutWindow} {expiredRows : ℕ}

-- The advanced window has the fragments of the old one and of the delta, without the expired ones.
variable (hitems : advanced.pages.flatMap (·.fragments) = (oldItems ++ newItems).drop expiredRows)
  (hcount : advanced.recordCount = ((oldItems ++ newItems).drop expiredRows).length)

include hitems hcount in
theorem advanceByteDelta_appended :
    (PayoutWindow.advanceByteDelta (oldItems.map List.length) advanced oldItems.length expiredRows).appendedItems =
      PayoutWindow.joinFragments (0 < (oldItems.drop expiredRows).length)
        (newItems.drop (expiredRows - oldItems.length)) := by
  have hretained : oldItems.length - min expiredRows oldItems.length = (oldItems.drop expiredRows).length := by
    rw [length_drop]
    omega
  have hnew : ((oldItems ++ newItems).drop expiredRows).drop (oldItems.drop expiredRows).length =
      newItems.drop (expiredRows - oldItems.length) := by
    rw [drop_append, drop_left]
  simp only [PayoutWindow.advanceByteDelta, hretained, hitems, hcount, hnew]
  split_ifs with hsurvives
  · rfl
  · have hnone : newItems.drop (expiredRows - oldItems.length) = [] := by
      rw [← length_eq_zero_iff]
      rw [drop_append, length_append] at hsurvives
      omega
    rw [hnone]
    rfl

variable (oldItems advanced expiredRows) in
theorem advanceByteDelta_drop :
    (PayoutWindow.advanceByteDelta (oldItems.map List.length) advanced oldItems.length
        expiredRows).retainedDropBytes ≤ (PayoutWindow.joinFragments false oldItems).length ∧
      (PayoutWindow.joinFragments false oldItems).drop
          (PayoutWindow.advanceByteDelta (oldItems.map List.length) advanced oldItems.length
            expiredRows).retainedDropBytes =
        PayoutWindow.joinFragments false (oldItems.drop expiredRows) := by
  have hretained : oldItems.length - min expiredRows oldItems.length = oldItems.length - expiredRows := by omega
  have hlength := length_joinFragments_false oldItems
  simp only [PayoutWindow.advanceByteDelta, hretained]
  split_ifs with hnone hsome
  · -- Nothing goes: no record expired, or there was none.
    refine ⟨Nat.zero_le _, ?_⟩
    obtain rfl | hempty : expiredRows = 0 ∨ oldItems.length = 0 := by omega
    · rfl
    · rw [length_eq_zero_iff.mp hempty, drop_nil]
      rfl
  · have hmin : min expiredRows oldItems.length = expiredRows := by omega
    have hsum : ((oldItems.map List.length).take expiredRows).sum ≤ (oldItems.map List.length).sum :=
      (take_sublist _ _).sum_le_sum (by simp)
    rw [hmin]
    exact ⟨by omega, drop_joinFragments oldItems (by omega) (by omega)⟩
  · -- The whole stream goes.
    have hall : (PayoutWindow.joinFragments false oldItems).length =
        ((oldItems.map List.length).take (min expiredRows oldItems.length)).sum + (oldItems.length - 1) := by
      rw [take_of_length_le (by rw [length_map]; omega), hlength]
    rw [← hall, drop_length, drop_eq_nil_of_le (by omega)]
    exact ⟨le_rfl, rfl⟩

end Delta

variable {windowWeight : U128} {window : PayoutWindow} {history delta : List AcceptedShare}
  {stats : WindowAdvanceStats} {bytes : WindowAdvanceByteDelta}

theorem expireWhile_le {α : Type} {difficulty : α → U128} {total final : U128} {xs : List α} {count : ℕ}
    (h : expireWhile difficulty windowWeight xs total = .ok (count, final)) : count ≤ xs.length := by
  induction xs generalizing total count with
  | nil =>
    cases h
    exact le_rfl
  | cons x xs ih =>
    simp only [expireWhile, bind_eq_ok, okOr_eq_ok] at h
    obtain ⟨left, -, h⟩ := h
    split_ifs at h
    · simp only [bind_eq_ok, pure_eq_ok, Prod.mk.injEq] at h
      obtain ⟨⟨n, f⟩, hrest, rfl, rfl⟩ := h
      exact Nat.succ_le_succ (ih hrest)
    · cases h
      exact Nat.zero_le _

theorem dropRecords_records (page : WindowPage) (count : ℕ) :
    (PayoutWindow.dropRecords page count).records = page.records.drop count := by
  unfold PayoutWindow.dropRecords
  split_ifs with hzero
  · rw [hzero, drop_zero]
  · rfl

theorem expireFirstPage_records {total final : U128} {pages retained : List WindowPage} {partialExpired : ℕ}
    (h : PayoutWindow.expireFirstPage windowWeight pages total = .ok (retained, final, partialExpired)) :
    pageRecords retained = (pageRecords pages).drop partialExpired ∧
      partialExpired ≤ (pageRecords pages).length := by
  cases pages with
  | nil =>
    simp only [PayoutWindow.expireFirstPage, pure_eq_ok, Prod.mk.injEq] at h
    obtain ⟨rfl, -, rfl⟩ := h
    exact ⟨rfl, le_rfl⟩
  | cons first rest =>
    simp only [PayoutWindow.expireFirstPage, bind_eq_ok, pure_eq_ok, Prod.mk.injEq] at h
    obtain ⟨⟨count, left⟩, hloop, rfl, -, rfl⟩ := h
    have hcount := expireWhile_le hloop
    dsimp only at hcount ⊢
    rw [pageRecords_cons, pageRecords_cons, dropRecords_records, drop_append_of_le_length hcount, length_append]
    exact ⟨rfl, by omega⟩

theorem length_pageRecords (pages : List WindowPage) :
    (pageRecords pages).length = (pages.map fun page => page.records.length).sum :=
  length_flatMap

theorem advance_drops {advanced : PayoutWindow} {anchor : I64} (hholds : window.Holds history)
    (h : window.advance delta anchor = .ok (advanced, stats, bytes)) :
    (∀ page ∈ advanced.pages, page.Valid) ∧
      pageRecords advanced.pages = (pageRecords window.pages ++ delta).drop stats.expiredRows ∧
      stats.expiredRows ≤ (pageRecords window.pages ++ delta).length ∧ stats.addedRows = delta.length ∧
      bytes = PayoutWindow.advanceByteDelta window.fragmentLengths advanced window.fragmentLengths.length
        stats.expiredRows := by
  simp only [PayoutWindow.advance, bind_eq_ok, require_eq_ok, okOr_eq_ok, pure_eq_ok,
    Unsigned.checkedSum_eq_some, Unsigned.checkedAdd_eq_some, Prod.mk.injEq] at h
  obtain ⟨-, -, last, -, deltaDifficulty, hdelta, combined, hcombined, ⟨firstRetained, pageTotal⟩, hpages,
    ⟨retained, final, partialExpired⟩, hrecords, rfl, rfl, rfl⟩ := h
  have htotal : combined.val =
      Crossing.weight AcceptedShare.difficulty (pageRecords window.pages ++ delta) := by
    rw [hcombined, hholds.total, hdelta, Crossing.weight_append, map_map]
    rfl
  obtain ⟨hvalid, happended⟩ := appendPages_valid hholds.size_ne hholds.valid (htotal ▸ combined.isLt)
  obtain ⟨hkept, -⟩ := expire_eq_ok hholds.weight_pos hvalid (by rw [happended, htotal]) hpages hrecords
  set pages := window.appendPages delta (delta.map canonicalShareFragment)
  obtain ⟨hretained, hpartial⟩ := expireFirstPage_records hrecords
  have hsplit : pageRecords (pages.take firstRetained) ++ pageRecords (pages.drop firstRetained) =
      pageRecords window.pages ++ delta := by
    rw [← pageRecords_append, take_append_drop, happended]
  have hlengths := congrArg List.length hsplit
  rw [length_append] at hlengths
  dsimp only at hpartial ⊢
  rw [← length_pageRecords]
  refine ⟨hkept, ?_, by omega, rfl, rfl⟩
  rw [hretained, ← hsplit, drop_append, drop_eq_nil_of_le (Nat.le_add_right _ _), nil_append, Nat.add_sub_cancel_left]

theorem advance_exact {advanced : PayoutWindow} {anchor : I64} (hholds : window.Holds history)
    (h : window.advance delta anchor = .ok (advanced, stats, bytes)) :
    bytes.retainedDropBytes ≤ window.canonicalItemsBytes.length ∧
      window.canonicalItemsBytes.drop bytes.retainedDropBytes ++ bytes.appendedItems =
        advanced.canonicalItemsBytes ∧
      stats.expiredRows + advanced.recordCount = window.recordCount + stats.addedRows := by
  obtain ⟨hadvanced, hrecords, hexpired, hadded, rfl⟩ := advance_drops hholds h
  have hlengths : window.fragmentLengths = (window.pages.flatMap (·.fragments)).map List.length := by
    rw [PayoutWindow.fragmentLengths, map_flatMap]
  have hitems : advanced.pages.flatMap (·.fragments) =
      (window.pages.flatMap (·.fragments) ++ delta.map canonicalShareFragment).drop stats.expiredRows := by
    rw [fragments_of_valid hadvanced, hrecords, fragments_of_valid hholds.valid, map_drop, map_append]
  have hcount : advanced.recordCount = ((window.pages.flatMap (·.fragments) ++
      delta.map canonicalShareFragment).drop stats.expiredRows).length := by
    rw [← hitems, fragments_of_valid hadvanced, length_map, length_pageRecords]
    rfl
  rw [hlengths, length_map, advanceByteDelta_appended hitems hcount]
  obtain ⟨hle, hdrop⟩ := advanceByteDelta_drop (window.pages.flatMap (·.fragments)) advanced stats.expiredRows
  refine ⟨hle, ?_, ?_⟩
  · rw [PayoutWindow.canonicalItemsBytes, hdrop, PayoutWindow.canonicalItemsBytes, hitems, drop_append,
      joinFragments_false_append]
  · have hrows := congrArg List.length hrecords
    rw [length_drop, length_append, length_pageRecords, length_pageRecords] at hrows
    rw [length_append, length_pageRecords] at hexpired
    rw [PayoutWindow.recordCount, PayoutWindow.recordCount, hadded]
    omega

/-- The surgery an advance reports is exact, in every window that advances lead to. -/
theorem advanceRun_surgery_exact {snapshot : List AcceptedShare} {anchor anchor' : I64} {windowWeight : U128}
    {pageSize : ℕ} {start window advanced : PayoutWindow} {steps : List (List AcceptedShare × I64)}
    {delta : List AcceptedShare} {stats : WindowAdvanceStats} {bytes : WindowAdvanceByteDelta}
    (hfull : PayoutWindow.fromFullSnapshot snapshot anchor windowWeight pageSize = .ok start)
    (hrun : start.advanceRun steps = .ok window) (h : window.advance delta anchor' = .ok (advanced, stats, bytes)) :
    bytes.retainedDropBytes ≤ window.canonicalItemsBytes.length ∧
      window.canonicalItemsBytes.drop bytes.retainedDropBytes ++ bytes.appendedItems =
        advanced.canonicalItemsBytes ∧
      stats.expiredRows + advanced.recordCount = window.recordCount + stats.addedRows := by
  obtain ⟨hholds, hordered, rfl, -, -⟩ := fromFullSnapshot_eq_ok hfull
  obtain ⟨hwindow, -⟩ := advanceRun_holds hholds hordered.history hrun
  exact advance_exact hwindow h

theorem advanceRun_surgery_exact_all_expired :
    ∃ start window advanced stats bytes,
      PayoutWindow.fromFullSnapshot windowSnapshot 10 9 2 = .ok start ∧
      start.advanceRun windowSteps = .ok window ∧
      window.advance [windowShare 9 20 13 13, windowShare 10 1 13 13] 13 = .ok (advanced, stats, bytes) ∧
      stats.expiredRows = 3 ∧
      window.canonicalItemsBytes.drop bytes.retainedDropBytes ++ bytes.appendedItems =
        advanced.canonicalItemsBytes := by
  have hok : ((PayoutWindow.fromFullSnapshot windowSnapshot 10 9 2).toOption.any fun start =>
      (start.advanceRun windowSteps).toOption.any fun window =>
        (window.advance [windowShare 9 20 13 13, windowShare 10 1 13 13] 13).toOption.any fun result =>
          result.2.1.expiredRows = 3) = true := by decide +kernel
  obtain ⟨start, hstart, hok⟩ := exists_of_any hok
  obtain ⟨window, hwindow, hok⟩ := exists_of_any hok
  obtain ⟨⟨advanced, stats, bytes⟩, hadvance, hexpired⟩ := exists_of_any hok
  obtain ⟨-, hmirror, -⟩ := advanceRun_surgery_exact hstart hwindow hadvance
  exact ⟨start, window, advanced, stats, bytes, hstart, hwindow, hadvance, of_decide_eq_true hexpired, hmirror⟩

end QbitPrism
