import Mathlib
import QbitPrism.Lib.Crossing
import QbitPrism.Lib.Keyset
import QbitPrism.Audit.Landing

/-!
# The share ledger

The rows of `qbit_share_ledger`, the predicate a window selects them by, and the selects the window
readers make. A ledger is a finite set of rows with distinct `share_seq`, kept here in that order, so
a select is a filter and `ORDER BY share_seq` leaves the order or reverses it.
-/
namespace QbitPrism
open MachineInt Checked

/-- A row. Timestamps are microseconds; the difficulties are `numeric`. -/
structure ShareRow where
  shareSeq : I64
  shareId : String
  minerId : String
  payoutOrderKey : String
  program : String
  shareDifficulty : ℕ
  networkDifficulty : ℕ
  templateHeight : I64
  jobId : String
  jobIssuedAt : I64
  acceptedAt : I64
  ntime : I64
  creditPolicy : Option String
  accepted : Bool
  originNode : ℕ
  tableoid : ℕ
  deriving DecidableEq

/-- `u64::try_from` and `u32::try_from` of a column. -/
def toUnsigned {w : ℕ} (value : I64) : Except LandingError (Unsigned w) := do
  ensure (0 ≤ value.val) "out of range integral type conversion attempted"
  okOr (Unsigned.ofNat? value.val.toNat) (.refused "out of range integral type conversion attempted")

def parseU128 (value : ℕ) : Except LandingError U128 :=
  okOr (Unsigned.ofNat? value) (.refused "number too large to fit in target type")

def timestampMillis (us : I64) : I64 :=
  ⟨us.val / 1000, by have := us.lower; omega, by have := us.upper; omega⟩

def shareFromRow (row : ShareRow) : Except LandingError AcceptedShare := do
  let shareSeq ← toUnsigned row.shareSeq
  let shareDifficulty ← parseU128 row.shareDifficulty
  let networkDifficulty ← parseU128 row.networkDifficulty
  let templateHeight ← toUnsigned row.templateHeight
  let ntime ← toUnsigned row.ntime
  pure {
    shareSeq
    shareId := row.shareId
    minerId := row.minerId
    orderKey := row.payoutOrderKey
    p2mrProgramHex := row.program
    shareDifficulty
    networkDifficulty
    templateHeight
    jobId := row.jobId
    jobIssuedAtMs := timestampMillis row.jobIssuedAt
    acceptedAtMs := timestampMillis row.acceptedAt
    ntime
    creditPolicy := row.creditPolicy }

/-- `anchored_eligibility_sql`: accepted, and accepted and issued by the anchor. -/
def ShareRow.anchored (row : ShareRow) (anchorMs : I64) : Bool :=
  row.accepted && row.acceptedAt.val ≤ anchorMs.val * 1000 && row.jobIssuedAt.val ≤ anchorMs.val * 1000

/-- `share_seq <= $n`, which `NULL` never satisfies. -/
def ShareRow.atMost (row : ShareRow) : Option U64 → Bool
  | some entry => row.shareSeq.val ≤ entry.val
  | none => false

def ShareRow.cutClause (row : ShareRow) : Option WindowCut → Bool
  | none => true
  | some cut =>
    (row.originNode == 0 && row.atMost cut.node0) || (row.originNode == 1 && row.atMost cut.node1)

def ShareRow.windowEligible (anchorMs : I64) (cut : Option WindowCut) (row : ShareRow) : Bool :=
  row.anchored anchorMs && row.cutClause cut

/-- The entries of a cut as SQL values; `none` for `NULL`. -/
def cutValue : Option U64 → Except LandingError (Option I64)
  | none => pure none
  | some entry => some <$>
      okOr (Signed.ofInt? entry.val) (.refused "window cut entry: out of range integral type conversion attempted")

/-- Binding a cut fails when an entry is no `bigint`. -/
def bindCut : Option WindowCut → Except LandingError Unit
  | none => pure ()
  | some cut => do
    let _ ← cutValue cut.node0
    let _ ← cutValue cut.node1

theorem cutValue_isOk {entry : Option U64} :
    (∃ value, cutValue entry = .ok value) ↔ ∀ seq ∈ entry, seq.val < 2 ^ 63 := by
  cases entry with
  | none => simp [cutValue]
  | some seq =>
    have hfits := Signed.ofInt?_isSome (w := 64) (z := seq.val)
    simp only [cutValue, Option.mem_def, Option.some.injEq, forall_eq']
    constructor
    · rintro ⟨value, hvalue⟩
      cases hseq : (Signed.ofInt? (seq.val : ℤ) : Option I64) with
      | none => rw [hseq] at hvalue; cases hvalue
      | some signed =>
        have := (hfits.mp ⟨signed, hseq⟩).2
        omega
    · intro hlt
      obtain ⟨signed, hsigned⟩ := hfits.mpr ⟨by omega, by omega⟩
      exact ⟨some signed, by rw [hsigned]; rfl⟩

theorem bindCut_some {cut : WindowCut} :
    bindCut (some cut) = .ok () ↔
      (∀ seq ∈ cut.node0, seq.val < 2 ^ 63) ∧ ∀ seq ∈ cut.node1, seq.val < 2 ^ 63 := by
  simp only [bindCut, bind_eq_ok, ← cutValue_isOk]
  constructor
  · rintro ⟨value0, h0, value1, h1, -⟩
    exact ⟨⟨value0, h0⟩, ⟨value1, h1⟩⟩
  · rintro ⟨⟨value0, h0⟩, ⟨value1, h1⟩⟩
    exact ⟨value0, h0, value1, h1, rfl⟩

theorem WindowCut.top_mem {cut : WindowCut} {top : U64} (h : cut.top = some top) :
    cut.node0 = some top ∨ cut.node1 = some top := by
  unfold WindowCut.top at h
  split_ifs at h
  · exact .inr h
  · exact .inl h

theorem WindowCut.le_top {cut : WindowCut} {entry : U64} (h : cut.node0 = some entry ∨ cut.node1 = some entry) :
    ∃ top, cut.top = some top ∧ entry.val ≤ top.val := by
  unfold WindowCut.top
  rcases h with h | h <;> rw [h]
  · cases hother : cut.node1 with
    | none => exact ⟨entry, rfl, le_rfl⟩
    | some other =>
      by_cases hle : entry.val ≤ other.val
      · exact ⟨other, if_pos (decide_eq_true hle), hle⟩
      · exact ⟨entry, if_neg (by simpa [entryLe] using hle), le_rfl⟩
  · cases hother : cut.node0 with
    | none => exact ⟨entry, rfl, le_rfl⟩
    | some other =>
      by_cases hle : other.val ≤ entry.val
      · exact ⟨entry, if_pos (decide_eq_true hle), le_rfl⟩
      · exact ⟨other, if_neg (by simpa [entryLe] using hle), by omega⟩

theorem ShareRow.atMost_eq_true {row : ShareRow} {entry : Option U64} :
    row.atMost entry = true ↔ ∃ value, entry = some value ∧ row.shareSeq.val ≤ value.val := by
  cases entry <;> simp [ShareRow.atMost]

theorem ShareRow.le_top {row : ShareRow} {cut : WindowCut} (h : row.cutClause (some cut)) :
    ∃ top, cut.top = some top ∧ row.shareSeq.val ≤ top.val := by
  simp only [ShareRow.cutClause, Bool.or_eq_true, Bool.and_eq_true, atMost_eq_true] at h
  obtain ⟨value, hvalue, hle⟩ : ∃ value, (cut.node0 = some value ∨ cut.node1 = some value) ∧
      row.shareSeq.val ≤ value.val := by
    rcases h with ⟨-, value, hvalue, hle⟩ | ⟨-, value, hvalue, hle⟩
    · exact ⟨value, .inl hvalue, hle⟩
    · exact ⟨value, .inr hvalue, hle⟩
  obtain ⟨top, htop, hvalue⟩ := WindowCut.le_top hvalue
  exact ⟨top, htop, hle.trans (by exact_mod_cast hvalue)⟩

structure ShareLedger where
  rows : List ShareRow
  ascending : rows.Pairwise fun a b => a.shareSeq.val < b.shareSeq.val

namespace ShareLedger
variable (ledger : ShareLedger) (anchorMs : I64) (cut : Option WindowCut)

def eligible : List ShareRow := ledger.rows.filter (ShareRow.windowEligible anchorMs cut)

/-- `ACCEPTED_CUTOFF_SQL`. -/
def acceptedCutoff : I64 := (ledger.rows.filter (·.accepted)).getLast?.elim 0 (·.shareSeq)

end ShareLedger

def ShareRow.seq (row : ShareRow) : ℤ := row.shareSeq.val

/-- `share_seq<$1 ORDER BY share_seq DESC LIMIT n` over rows selected oldest first. -/
def pageBelow (selected : List ShareRow) (limit : ℕ) (cursor : ℤ) : List ShareRow :=
  (Keyset.beyond (· > ·) ShareRow.seq cursor selected.reverse).take limit

/-- `share_seq>$1 AND share_seq<=$2 ORDER BY share_seq LIMIT n`. -/
def pageAbove (selected : List ShareRow) (limit : ℕ) (last cursor : ℤ) : List ShareRow :=
  (Keyset.beyond (· < ·) ShareRow.seq cursor (selected.filter (·.seq ≤ last))).take limit

/-- The rows `pageAbove` takes its page from. -/
def rowsAbove (selected : List ShareRow) (last cursor : ℤ) : List ShareRow :=
  Keyset.beyond (· < ·) ShareRow.seq cursor (selected.filter (·.seq ≤ last))

theorem rowsAbove_past {selected : List ShareRow} {last cursor : ℤ} (h : ¬cursor < last) :
    rowsAbove selected last cursor = [] := by
  rw [rowsAbove, Keyset.beyond, List.filter_filter, List.filter_eq_nil_iff]
  intro row _
  simp only [Bool.and_eq_true, decide_eq_true_eq, not_and]
  omega

theorem toUnsigned_eq_ok {w : ℕ} {value : I64} {out : Unsigned w} :
    toUnsigned value = .ok out ↔ (out.val : ℤ) = value.val := by
  simp only [toUnsigned, ensure, bind_eq_ok, require_eq_ok, okOr_eq_ok, Unsigned.ofNat?_eq_some, exists_const]
  constructor
  · rintro ⟨hnonneg, hval⟩
    rw [hval, Int.toNat_of_nonneg hnonneg]
  · intro hval
    exact ⟨by omega, by omega⟩

structure ShareRow.Decodes (row : ShareRow) (share : AcceptedShare) : Prop where
  seq : (share.shareSeq.val : ℤ) = row.seq
  difficulty : share.shareDifficulty.val = row.shareDifficulty

theorem shareFromRow_decodes {row : ShareRow} {share : AcceptedShare} (h : shareFromRow row = .ok share) :
    row.Decodes share := by
  simp only [shareFromRow, parseU128, bind_eq_ok, pure_eq_ok, toUnsigned_eq_ok, okOr_eq_ok,
    Unsigned.ofNat?_eq_some] at h
  obtain ⟨shareSeq, hseq, shareDifficulty, hdifficulty, -, -, -, -, -, -, rfl⟩ := h
  exact ⟨hseq, hdifficulty⟩

def Decoded (rows : List ShareRow) (shares : List AcceptedShare) : Prop :=
  List.Forall₂ (fun row share => shareFromRow row = .ok share) rows shares

namespace Decoded
variable {rows others : List ShareRow} {shares decoded : List AcceptedShare}

theorem of_mapM : rows.mapM shareFromRow = .ok shares ↔ Decoded rows shares := mapM_eq_ok

theorem reverse (h : Decoded rows shares) : Decoded rows.reverse shares.reverse :=
  List.rel_reverse h

theorem reverse_iff : Decoded rows.reverse shares.reverse ↔ Decoded rows shares :=
  ⟨fun h => by simpa using h.reverse, Decoded.reverse⟩

section
variable (h : Decoded rows shares)
include h

theorem append (hothers : Decoded others decoded) :
    Decoded (rows ++ others) (shares ++ decoded) :=
  List.rel_append h hothers

theorem length : rows.length = shares.length := List.Forall₂.length_eq h

theorem seqs : shares.map (fun share => (share.shareSeq.val : ℤ)) = rows.map (·.seq) := by
  induction h with
  | nil => rfl
  | cons hrow _ ih => rw [List.map_cons, List.map_cons, ih, (shareFromRow_decodes hrow).seq]

theorem difficulties :
    shares.map (·.shareDifficulty.val) = rows.map (·.shareDifficulty) := by
  induction h with
  | nil => rfl
  | cons hrow _ ih => rw [List.map_cons, List.map_cons, ih, (shareFromRow_decodes hrow).difficulty]

end

end Decoded

namespace ShareLedger

theorem eligible_ascending (ledger : ShareLedger) (anchorMs : I64) (cut : Option WindowCut) :
    (ledger.eligible anchorMs cut).Pairwise fun a b => a.seq < b.seq :=
  List.Pairwise.filter _ ledger.ascending

end ShareLedger

end QbitPrism
