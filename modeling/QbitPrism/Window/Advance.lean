import Mathlib
import QbitPrism.Lib.Crossing
import QbitPrism.Window.Pages

/-!
# Advancing a window is folding it again

A window holds the newest shares that reach its weight out of everything eligible so far.
The fold of a snapshot establishes this and every advance keeps it, so after any run of
advances the window is the one a full fold of all shares would give. The shares a window
left out are too old to be counted, so the payout computed from it is the payout computed
from the whole snapshot.
-/
namespace QbitPrism
open MachineInt Checked SortBy ByteReader List

def AcceptedShare.difficulty (share : AcceptedShare) : ℕ := share.shareDifficulty.val

/-- Records in the order a window keeps them, and fit for one. -/
structure Ordered (records : List AcceptedShare) : Prop where
  ascending : records.Pairwise fun a b => a.shareSeq.val < b.shareSeq.val
  ids : (records.map (·.shareId)).Nodup
  positive : ∀ record ∈ records, record.shareDifficulty ≠ 0

variable {records : List AcceptedShare}

theorem checkRecord_fold {prior : Option U64} {ids : List String} :
    (∃ state, records.foldlM checkRecord (prior, ids) = .ok state) ↔
      (∀ p ∈ prior, ∀ record ∈ records, p.val < record.shareSeq.val) ∧
      (∀ record ∈ records, record.shareId ∉ ids) ∧ Ordered records := by
  induction records generalizing prior ids with
  | nil =>
    refine ⟨fun _ => ⟨by simp, by simp, .nil, .nil, by simp⟩, fun _ => ⟨_, rfl⟩⟩
  | cons record records ih =>
    have hstep : ∀ state, (record :: records).foldlM checkRecord (prior, ids) = .ok state ↔
        (∀ p ∈ prior, p.val < record.shareSeq.val) ∧ record.shareId ∉ ids ∧
          record.shareDifficulty ≠ 0 ∧
          records.foldlM checkRecord (some record.shareSeq, record.shareId :: ids) = .ok state := by
      intro state
      simp only [foldlM_cons, checkRecord, bind_eq_ok, require_eq_ok, pure_eq_ok]
      constructor
      · rintro ⟨_, ⟨-, hprior, -, hid, -, hpositive, rfl⟩, hrest⟩
        exact ⟨hprior, hid, hpositive, hrest⟩
      · rintro ⟨hprior, hid, hpositive, hrest⟩
        exact ⟨_, ⟨(), hprior, (), hid, (), hpositive, rfl⟩, hrest⟩
    simp only [hstep, exists_and_left, ih]
    constructor
    · rintro ⟨hprior, hid, hpositive, hseq, hids, hordered⟩
      have hlater := hseq record.shareSeq rfl
      refine ⟨?_, ?_, ?_, ?_, ?_⟩
      · intro p hp
        exact forall_mem_cons.mpr
          ⟨hprior p hp, fun other hother => (hprior p hp).trans (hlater other hother)⟩
      · exact forall_mem_cons.mpr
          ⟨hid, fun other hother => fun hmem => hids other hother (mem_cons_of_mem _ hmem)⟩
      · exact pairwise_cons.mpr ⟨hlater, hordered.ascending⟩
      · refine nodup_cons.mpr ⟨?_, hordered.ids⟩
        intro hmem
        obtain ⟨other, hother, heq⟩ := mem_map.mp hmem
        exact hids other hother (heq ▸ mem_cons_self)
      · exact forall_mem_cons.mpr ⟨hpositive, hordered.positive⟩
    · rintro ⟨hprior, hid, hascending, hnodup, hpositive⟩
      obtain ⟨hlater, hascending⟩ := pairwise_cons.mp hascending
      obtain ⟨hnew, hnodup⟩ := nodup_cons.mp hnodup
      obtain ⟨hfirst, hrest⟩ := forall_mem_cons.mp hpositive
      refine ⟨fun p hp => hprior p hp record mem_cons_self, hid record mem_cons_self,
        hfirst, ?_, ?_, hascending, hnodup, hrest⟩
      · intro p hp
        rw [Option.mem_some_iff] at hp
        exact hp ▸ hlater
      · intro other hother hmem
        rcases mem_cons.mp hmem with heq | hmem
        · exact hnew (mem_map.mpr ⟨other, hother, heq⟩)
        · exact hid other (mem_cons_of_mem _ hother) hmem

variable {windowWeight total : U128} {count : ℕ}

theorem retainNewest_eq_ok {acc : U128} {kept : ℕ} :
    retainNewest windowWeight records kept acc = .ok (count, total) ↔
      count = kept +
        (Crossing.take AcceptedShare.difficulty (windowWeight.val - acc.val) records).length ∧
      total.val = acc.val + Crossing.weight AcceptedShare.difficulty
        (Crossing.take AcceptedShare.difficulty (windowWeight.val - acc.val) records) := by
  induction records generalizing kept acc with
  | nil =>
    simp only [retainNewest, pure_eq_ok, Prod.mk.injEq, Crossing.take_nil, length_nil,
      Crossing.weight_nil, Nat.add_zero]
    exact ⟨fun h => ⟨h.1.symm, congrArg Unsigned.val h.2.symm⟩,
      fun h => ⟨h.1.symm, Unsigned.ext h.2.symm⟩⟩
  | cons record records ih =>
    rw [retainNewest]
    split_ifs with hreached
    · have hzero : windowWeight.val - acc.val = 0 := by omega
      rw [hzero, Crossing.take_zero]
      simp only [pure_eq_ok, Prod.mk.injEq, length_nil, Crossing.weight_nil, Nat.add_zero]
      exact ⟨fun h => ⟨h.1.symm, congrArg Unsigned.val h.2.symm⟩,
        fun h => ⟨h.1.symm, Unsigned.ext h.2.symm⟩⟩
    · rw [Crossing.take_cons (by omega)]
      simp only [bind_eq_ok, okOr_eq_ok, Unsigned.checkedAdd_eq_some, ih, length_cons, Crossing.weight_cons]
      constructor
      · rintro ⟨sum, hsum, hcount, htotal⟩
        rw [hsum, Nat.sub_add_eq] at hcount htotal
        exact ⟨by rw [hcount]; simp only [AcceptedShare.difficulty]; omega,
          by rw [htotal]; simp only [AcceptedShare.difficulty]; omega⟩
      · rintro ⟨hcount, htotal⟩
        have hfit : acc.val + record.shareDifficulty.val < 2 ^ 128 := by
          have hlt := total.isLt
          simp only [AcceptedShare.difficulty] at htotal
          omega
        refine ⟨⟨acc.val + record.shareDifficulty.val, hfit⟩, rfl, ?_, ?_⟩
        · rw [hcount, Nat.sub_add_eq]
          simp only [AcceptedShare.difficulty]
          omega
        · rw [htotal, Nat.sub_add_eq]
          simp only [AcceptedShare.difficulty]
          omega

section Chunks
variable {α β : Type}

theorem chunks_map (f : α → β) (size fuel : ℕ) (xs : List α) :
    chunks size fuel (xs.map f) = (chunks size fuel xs).map (List.map f) := by
  induction fuel generalizing xs with
  | zero => rfl
  | succ fuel ih =>
    cases xs with
    | nil => rfl
    | cons x xs =>
      rw [map_cons, chunks, chunks, ← map_cons, ← map_take, ← map_drop, ih]
      rfl

theorem chunks_flatten {size fuel : ℕ} {xs : List α} (hsize : size ≠ 0) (hfuel : xs.length ≤ fuel) :
    (chunks size fuel xs).flatten = xs := by
  induction fuel generalizing xs with
  | zero => rw [length_eq_zero_iff.mp (Nat.le_zero.mp hfuel), chunks, flatten_nil]
  | succ fuel ih =>
    cases xs with
    | nil => rfl
    | cons x xs =>
      have hshort : ((x :: xs).drop size).length ≤ fuel := by
        rw [length_drop]
        rw [length_cons] at hfuel ⊢
        omega
      rw [chunks, flatten_cons, ih hshort, take_append_drop]

theorem chunks_ne_nil {size fuel : ℕ} {xs chunk : List α} (hsize : size ≠ 0)
    (h : chunk ∈ chunks size fuel xs) : chunk ≠ [] := by
  induction fuel generalizing xs with
  | zero => exact absurd h not_mem_nil
  | succ fuel ih =>
    cases xs with
    | nil => exact absurd h not_mem_nil
    | cons x xs =>
      rcases mem_cons.mp h with rfl | h
      · obtain ⟨n, rfl⟩ := Nat.exists_eq_succ_of_ne_zero hsize
        exact cons_ne_nil _ _
      · exact ih h

end Chunks

structure WindowPage.Valid (page : WindowPage) : Prop where
  nonempty : page.records ≠ []
  encoded : page.fragments = page.records.map canonicalShareFragment
  total : page.totalDifficulty.val = Crossing.weight AcceptedShare.difficulty page.records

theorem WindowPage.valid_fromRetained {fragments : List (List UInt8)} (hne : records ≠ [])
    (hencoded : fragments = records.map canonicalShareFragment)
    (hfit : Crossing.weight AcceptedShare.difficulty records < 2 ^ 128) :
    (WindowPage.fromRetained records fragments).Valid where
  nonempty := hne
  encoded := hencoded
  total := by
    have hweight : ((records.map (·.shareDifficulty)).map Unsigned.val).sum =
        Crossing.weight AcceptedShare.difficulty records := by
      rw [map_map]
      rfl
    rw [fromRetained, Unsigned.foldl_saturatingAdd_val, Unsigned.val_zero, Nat.zero_add, hweight]
    rwa [Unsigned.val_zero, Nat.zero_add, hweight]

def pageRecords (pages : List WindowPage) : List AcceptedShare := pages.flatMap (·.records)

@[simp] theorem pageRecords_cons (page : WindowPage) (pages : List WindowPage) :
    pageRecords (page :: pages) = page.records ++ pageRecords pages := flatMap_cons

@[simp] theorem pageRecords_append (pages more : List WindowPage) :
    pageRecords (pages ++ more) = pageRecords pages ++ pageRecords more := flatMap_append

theorem pages_of_chunks {size : ℕ} (hsize : size ≠ 0)
    (hfit : Crossing.weight AcceptedShare.difficulty records < 2 ^ 128) :
    (∀ page ∈ (chunks size records.length records).map WindowPage.fromRecords, page.Valid) ∧
      pageRecords ((chunks size records.length records).map WindowPage.fromRecords) = records := by
  have hflat := chunks_flatten hsize (le_refl records.length)
  constructor
  · intro page hpage
    obtain ⟨chunk, hchunk, rfl⟩ := mem_map.mp hpage
    refine WindowPage.valid_fromRetained (chunks_ne_nil hsize hchunk) rfl (lt_of_le_of_lt ?_ hfit)
    obtain ⟨before, after, hsplit⟩ := append_of_mem hchunk
    rw [← hflat, hsplit]
    simp only [flatten_append, flatten_cons, Crossing.weight_append]
    omega
  · rw [pageRecords, flatMap_map]
    exact flatMap_id.trans hflat

theorem expireWhile_eq_ok {α : Type} {difficulty : α → U128} {final : U128} {xs : List α}
    (h : expireWhile difficulty windowWeight xs total = .ok (count, final)) :
    final.val + Crossing.weight (fun x => (difficulty x).val) (xs.take count) = total.val ∧
      (count = 0 ∨ windowWeight.val ≤ final.val) ∧
      ∀ x rest, xs.drop count = x :: rest → final.val < windowWeight.val + (difficulty x).val := by
  induction xs generalizing total count with
  | nil =>
    cases h
    exact ⟨rfl, .inl rfl, by simp⟩
  | cons y xs ih =>
    simp only [expireWhile, bind_eq_ok, okOr_eq_ok, Unsigned.checkedSub_eq_some] at h
    obtain ⟨left, hleft, h⟩ := h
    split_ifs at h with hreached
    · simp only [bind_eq_ok, pure_eq_ok, Prod.mk.injEq] at h
      obtain ⟨⟨n, f⟩, hrest, rfl, rfl⟩ := h
      obtain ⟨hsum, hkept, hnext⟩ := ih hrest
      dsimp only at hsum hkept hnext ⊢
      refine ⟨?_, .inr ?_, hnext⟩
      · rw [take_succ_cons, Crossing.weight_cons]
        omega
      · rcases hkept with rfl | hkept
        · rw [List.take_zero, Crossing.weight_nil] at hsum
          omega
        · exact hkept
    · cases h
      refine ⟨rfl, .inl rfl, ?_⟩
      intro x rest hdrop
      obtain ⟨rfl, rfl⟩ := List.cons.inj hdrop
      omega

variable {pages : List WindowPage}

theorem weight_pageRecords (h : ∀ page ∈ pages, page.Valid) :
    Crossing.weight (fun page : WindowPage => page.totalDifficulty.val) pages =
      Crossing.weight AcceptedShare.difficulty (pageRecords pages) := by
  induction pages with
  | nil => rfl
  | cons page pages ih =>
    obtain ⟨hpage, hpages⟩ := forall_mem_cons.mp h
    rw [Crossing.weight_cons, pageRecords_cons, Crossing.weight_append, hpage.total, ih hpages]

theorem valid_dropRecords {page : WindowPage} (h : page.Valid) (hcount : count < page.records.length) :
    (PayoutWindow.dropRecords page count).Valid ∧
      (PayoutWindow.dropRecords page count).records = page.records.drop count := by
  unfold PayoutWindow.dropRecords
  split_ifs with hzero
  · rw [hzero]
    exact ⟨h, rfl⟩
  · refine ⟨WindowPage.valid_fromRetained ?_ ?_ ?_, rfl⟩
    · rw [Ne, drop_eq_nil_iff]
      omega
    · rw [h.encoded, map_drop]
    · have hsplit : Crossing.weight AcceptedShare.difficulty (page.records.take count) +
          Crossing.weight AcceptedShare.difficulty (page.records.drop count) =
          page.totalDifficulty.val := by
        rw [← Crossing.weight_append, take_append_drop, h.total]
      have hlt := page.totalDifficulty.isLt
      omega

theorem expire_eq_ok {pageTotal final : U128} {retained : List WindowPage} {firstRetained partialExpired : ℕ}
    (hpos : 0 < windowWeight.val) (hvalid : ∀ page ∈ pages, page.Valid)
    (htotal : total.val = Crossing.weight AcceptedShare.difficulty (pageRecords pages))
    (hpages : expireWhile (·.totalDifficulty) windowWeight pages total = .ok (firstRetained, pageTotal))
    (hrecords : PayoutWindow.expireFirstPage windowWeight (pages.drop firstRetained) pageTotal = .ok (retained, final,
      partialExpired)) :
    (∀ page ∈ retained, page.Valid) ∧
      final.val = Crossing.weight AcceptedShare.difficulty (pageRecords retained) ∧
      (pageRecords retained).reverse =
        Crossing.take AcceptedShare.difficulty windowWeight.val (pageRecords pages).reverse := by
  obtain ⟨hsum, hkept, hnext⟩ := expireWhile_eq_ok hpages
  have hdropped : ∀ page ∈ pages.drop firstRetained, page.Valid :=
    fun page hpage => hvalid page (mem_of_mem_drop hpage)
  have htaken : ∀ page ∈ pages.take firstRetained, page.Valid :=
    fun page hpage => hvalid page (mem_of_mem_take hpage)
  have hsplit : pageRecords pages =
      pageRecords (pages.take firstRetained) ++ pageRecords (pages.drop firstRetained) := by
    rw [← pageRecords_append, take_append_drop]
  rw [weight_pageRecords htaken] at hsum
  have hleft : pageTotal.val =
      Crossing.weight AcceptedShare.difficulty (pageRecords (pages.drop firstRetained)) := by
    rw [hsplit, Crossing.weight_append] at htotal
    omega
  cases hrest : pages.drop firstRetained with
  | nil =>
    -- No page is left: the loop never ran, since nothing reaches a positive weight.
    rw [hrest] at hrecords hleft
    obtain ⟨rfl, rfl, rfl⟩ : retained = [] ∧ final = pageTotal ∧ partialExpired = 0 := by
      obtain ⟨rfl, hrest⟩ := Prod.mk.inj (Except.ok.inj hrecords)
      obtain ⟨rfl, rfl⟩ := Prod.mk.inj hrest
      exact ⟨rfl, rfl, rfl⟩
    refine ⟨by simp, hleft, ?_⟩
    have hzero : firstRetained = 0 := by
      rcases hkept with hzero | hkept
      · exact hzero
      · rw [show pageRecords [] = [] from rfl, Crossing.weight_nil] at hleft
        omega
    rw [hzero, drop_zero] at hrest
    rw [hrest]
    rfl
  | cons first rest =>
    rw [hrest] at hrecords hleft hsplit hdropped
    obtain ⟨hfirst, hothers⟩ := forall_mem_cons.mp hdropped
    simp only [PayoutWindow.expireFirstPage, bind_eq_ok, pure_eq_ok, Prod.mk.injEq] at hrecords
    obtain ⟨⟨count, left⟩, hloop, rfl, rfl, rfl⟩ := hrecords
    dsimp only
    obtain ⟨hsum', hkept', hnext'⟩ := expireWhile_eq_ok hloop
    have hpage := hnext first rest hrest
    rw [hfirst.total] at hpage
    rw [pageRecords_cons, Crossing.weight_append] at hleft
    have hrecordSum : left.val + Crossing.weight AcceptedShare.difficulty
        (first.records.take count) = pageTotal.val := hsum'
    have hcount : count < first.records.length := by
      by_contra hall
      rw [take_of_length_le (by omega)] at hrecordSum
      have hne := length_pos_iff.mpr hfirst.nonempty
      omega
    obtain ⟨hvalidFirst, hfirstRecords⟩ := valid_dropRecords hfirst hcount
    cases hdrop : first.records.drop count with
    | nil => exact absurd hdrop (by rw [drop_eq_nil_iff]; omega)
    | cons x tail =>
      have hlast := hnext' x tail hdrop
      have hfirstSplit : first.records = first.records.take count ++ x :: tail := by
        rw [← hdrop, take_append_drop]
      have hfirstWeight := congrArg (Crossing.weight AcceptedShare.difficulty) hfirstSplit
      rw [Crossing.weight_append, Crossing.weight_cons] at hfirstWeight
      refine ⟨forall_mem_cons.mpr ⟨hvalidFirst, hothers⟩, ?_, ?_⟩
      · rw [pageRecords_cons, hfirstRecords, hdrop, Crossing.weight_append, Crossing.weight_cons]
        omega
      · have hx : x.difficulty = x.shareDifficulty.val := rfl
        have hcombined : (pageRecords pages).reverse = (tail ++ pageRecords rest).reverse ++
            x :: (pageRecords (pages.take firstRetained) ++ first.records.take count).reverse := by
          rw [hsplit, pageRecords_cons]
          conv_lhs => rw [hfirstSplit]
          simp only [reverse_append, reverse_cons, append_assoc, cons_append, nil_append]
        rw [pageRecords_cons, hfirstRecords, hdrop, hcombined, Crossing.take_of_crossing]
        · simp only [reverse_append, reverse_cons, append_assoc]
        · rw [Crossing.weight_reverse, Crossing.weight_append]
          omega
        · rw [Crossing.weight_append, Crossing.weight_reverse, Crossing.weight_append,
            Crossing.weight_cons, Crossing.weight_nil]
          rcases hkept' with hcountZero | hkept'
          · rcases hkept with hpageZero | hkept
            · exact .inl (by rw [hcountZero, hpageZero]; rfl)
            · have hnone : Crossing.weight AcceptedShare.difficulty
                  (first.records.take count) = 0 := by
                rw [hcountZero, List.take_zero, Crossing.weight_nil]
              exact .inr (by omega)
          · exact .inr (by omega)

/-- The window holds the newest of these records, oldest first, that reach its weight. -/
structure PayoutWindow.Holds (window : PayoutWindow) (history : List AcceptedShare) : Prop where
  weight_pos : 0 < window.windowWeight.val
  size_ne : window.pageSize ≠ 0
  valid : ∀ page ∈ window.pages, page.Valid
  total : window.totalDifficulty.val =
    Crossing.weight AcceptedShare.difficulty (pageRecords window.pages)
  newest : (pageRecords window.pages).reverse =
    Crossing.take AcceptedShare.difficulty window.windowWeight.val history.reverse

instance : Std.TransCmp shareSeqCmp := transCmp_comap compare fun record : AcceptedShare => record.shareSeq.val

theorem le_shareSeqCmp {a b : AcceptedShare} :
    Le shareSeqCmp a b ↔ a.shareSeq.val ≤ b.shareSeq.val := by
  rw [Le, shareSeqCmp, Nat.isLE_compare]

theorem Ordered.eq_of_seq (h : records.Pairwise fun a b => a.shareSeq.val < b.shareSeq.val)
    {a b : AcceptedShare} (ha : a ∈ records) (hb : b ∈ records)
    (hseq : a.shareSeq.val = b.shareSeq.val) : a = b := by
  have hnodup : (records.map fun record => record.shareSeq.val).Nodup :=
    pairwise_map.mpr (h.imp fun hlt => hlt.ne)
  exact inj_on_of_nodup_map hnodup ha hb hseq

theorem sortBy_shareSeq {ascending : List AcceptedShare} (hperm : ascending.Perm records)
    (h : ascending.Pairwise fun a b => a.shareSeq.val < b.shareSeq.val) :
    sortBy shareSeqCmp records = ascending := by
  have hsort := sortBy_perm shareSeqCmp records
  refine List.Perm.eq_of_pairwise ?_ (sortBy_pairwise shareSeqCmp records)
    (h.imp fun hlt => le_shareSeqCmp.mpr hlt.le) (hsort.trans hperm.symm)
  intro a b ha hb hab hba
  rw [le_shareSeqCmp] at hab hba
  exact Ordered.eq_of_seq h (hperm.mem_iff.mpr (hsort.mem_iff.mp ha)) hb (by omega)

def eligibleRecords (records : List AcceptedShare) (anchorJobIssuedAtMs : I64) : List AcceptedShare :=
  sortBy shareSeqCmp (records.filter (·.eligible anchorJobIssuedAtMs))

theorem drop_eq_take_reverse {windowWeight : ℕ}
    (h : count = (Crossing.take AcceptedShare.difficulty windowWeight records.reverse).length) :
    records.drop (records.length - count) =
      (Crossing.take AcceptedShare.difficulty windowWeight records.reverse).reverse := by
  obtain ⟨rest, hrest⟩ := Crossing.take_initial (w := AcceptedShare.difficulty) windowWeight records.reverse
  have hrecords : records = rest.reverse ++
      (Crossing.take AcceptedShare.difficulty windowWeight records.reverse).reverse := by
    rw [← reverse_append, hrest, reverse_reverse]
  have hlen := congrArg List.length hrecords
  rw [length_append, length_reverse, length_reverse] at hlen
  conv_lhs => rw [hrecords]
  rw [drop_left' (by rw [length_reverse, ← hrecords]; omega)]

variable {window : PayoutWindow}

theorem fromFullSnapshot_eq_ok {anchor : I64} {pageSize : ℕ}
    (h : PayoutWindow.fromFullSnapshot records anchor windowWeight pageSize = .ok window) :
    window.Holds (eligibleRecords records anchor) ∧ Ordered (eligibleRecords records anchor) ∧
      window.anchorJobIssuedAtMs = anchor ∧ window.windowWeight = windowWeight ∧
      window.pageSize = pageSize := by
  simp only [PayoutWindow.fromFullSnapshot, bind_eq_ok, require_eq_ok, pure_eq_ok] at h
  obtain ⟨-, hweight, -, hsize, state, hcheck, ⟨kept, total⟩, hwalk, rfl⟩ := h
  rw [← eligibleRecords] at hcheck hwalk ⊢
  rw [retainNewest_eq_ok, Unsigned.val_zero, Nat.sub_zero, Nat.zero_add, Nat.zero_add] at hwalk
  obtain ⟨hkept, htotal⟩ := hwalk
  dsimp only
  rw [drop_eq_take_reverse hkept]
  have hfit : Crossing.weight AcceptedShare.difficulty (Crossing.take AcceptedShare.difficulty
      windowWeight.val (eligibleRecords records anchor).reverse).reverse < 2 ^ 128 := by
    rw [Crossing.weight_reverse, ← htotal]
    exact total.isLt
  obtain ⟨hvalid, hrecords⟩ := pages_of_chunks hsize hfit
  refine ⟨⟨?_, hsize, hvalid, ?_, ?_⟩, (checkRecord_fold.mp ⟨state, hcheck⟩).2.2, rfl, rfl, rfl⟩
  · exact Nat.pos_of_ne_zero fun hzero => hweight (Unsigned.ext (hzero.trans Unsigned.val_zero.symm))
  · rw [hrecords, Crossing.weight_reverse, htotal]
  · rw [hrecords, reverse_reverse]

theorem fromFullSnapshot_isOk {anchor : I64} {pageSize : ℕ} (hweight : windowWeight ≠ 0)
    (hsize : pageSize ≠ 0) (hordered : Ordered (eligibleRecords records anchor))
    (hfit : Crossing.weight AcceptedShare.difficulty (Crossing.take AcceptedShare.difficulty windowWeight.val (eligibleRecords records anchor).reverse) < 2 ^ 128) :
    ∃ window, PayoutWindow.fromFullSnapshot records anchor windowWeight pageSize = .ok window := by
  obtain ⟨state, hcheck⟩ := checkRecord_fold.mpr
    ⟨(by simp : ∀ p ∈ (none : Option U64), _), fun record _ => not_mem_nil, hordered⟩
  have hwalk : retainNewest windowWeight (eligibleRecords records anchor).reverse 0 0 =
      .ok ((Crossing.take AcceptedShare.difficulty windowWeight.val
        (eligibleRecords records anchor).reverse).length, ⟨_, hfit⟩) := by
    rw [retainNewest_eq_ok]
    simp
  simp only [PayoutWindow.fromFullSnapshot, bind_eq_ok, require_eq_ok, pure_eq_ok]
  exact ⟨_, (), hweight, (), hsize, state, hcheck, _, hwalk, rfl⟩

theorem PayoutWindow.Holds.unique {other : PayoutWindow} {history : List AcceptedShare} (h : window.Holds history)
    (h' : other.Holds history) (hweight : other.windowWeight = window.windowWeight) :
    other.sharesForBuild = window.sharesForBuild ∧ other.totalDifficulty = window.totalDifficulty := by
  have hrecords : pageRecords other.pages = pageRecords window.pages :=
    reverse_injective (by rw [h'.newest, h.newest, hweight])
  refine ⟨hrecords, Unsigned.ext ?_⟩
  rw [h'.total, h.total, hrecords]

theorem joinFragments_append (xs ys : List (List UInt8)) :
    PayoutWindow.joinFragments true (xs ++ ys) =
      PayoutWindow.joinFragments true xs ++ PayoutWindow.joinFragments true ys := by
  induction xs with
  | nil => rfl
  | cons x xs ih => simp only [cons_append, PayoutWindow.joinFragments, ih, append_assoc]

theorem joinFragments_page {xs : List (List UInt8)} (hne : xs ≠ []) (needsSeparator : Bool) (ys : List (List UInt8)) :
    PayoutWindow.joinFragments needsSeparator (xs ++ ys) = (if needsSeparator then [0x2c] else []) ++
      (PayoutWindow.joinFragments false xs ++ PayoutWindow.joinFragments true ys) := by
  cases xs with
  | nil => exact absurd rfl hne
  | cons x xs =>
    simp only [cons_append, PayoutWindow.joinFragments, joinFragments_append,
      Bool.false_eq_true, if_false, nil_append, append_assoc]

theorem digestItems_eq (needsSeparator : Bool) (pages : List WindowPage) :
    PayoutWindow.digestItems needsSeparator pages =
      PayoutWindow.joinFragments needsSeparator (pages.flatMap (·.fragments)) := by
  induction pages generalizing needsSeparator with
  | nil => rfl
  | cons page pages ih =>
    rw [PayoutWindow.digestItems, flatMap_cons]
    by_cases hempty : page.fragments = []
    · rw [if_pos hempty, ih, hempty, nil_append]
    · rw [if_neg hempty, ih, joinFragments_page hempty]

theorem fragments_of_valid (h : ∀ page ∈ pages, page.Valid) :
    pages.flatMap (·.fragments) = (pageRecords pages).map canonicalShareFragment := by
  rw [pageRecords, map_flatMap]
  exact flatMap_congr fun page hpage => (h page hpage).encoded

theorem PayoutWindow.Holds.digest {other : PayoutWindow} {history : List AcceptedShare} (h : window.Holds history)
    (h' : other.Holds history) (hweight : other.windowWeight = window.windowWeight) (crypto : Crypto) :
    other.canonicalDigestHex crypto = window.canonicalDigestHex crypto := by
  have hrecords : pageRecords other.pages = pageRecords window.pages := (h.unique h' hweight).1
  simp only [canonicalDigestHex, digestItems_eq, fragments_of_valid h.valid, fragments_of_valid h'.valid, hrecords]

end QbitPrism
