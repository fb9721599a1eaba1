import Mathlib
import QbitPrism.Coinbase.Readers
import QbitPrism.Stratum.Codec

/-!
# Assembled blocks read back

The walk over a transaction stops where the transaction ends, whatever follows, so a block is cut
into the transactions it was put together from. A coinbase keeps its shape when the miner's bytes
are replaced by others of the same length.
-/
namespace QbitPrism
open MachineInt Checked ByteReader List

/-- What a cursor reads stays the same when bytes are added at the end. -/
def Extends {α : Type} (r : List UInt8 → Cursor α) : Prop :=
  ∀ (bytes more : List UInt8) (start stop : ℕ) (x : α),
    r bytes start = .ok (x, stop) → r (bytes ++ more) start = .ok (x, stop)

namespace Extends

variable {α β : Type}

theorem const (r : Cursor α) : Extends fun _ => r := fun _ _ _ _ _ h => h

theorem bind {r : List UInt8 → Cursor α} {f : List UInt8 → α → Cursor β} (hr : Extends r)
    (hf : ∀ x, Extends fun bytes => f bytes x) : Extends fun bytes => r bytes >>= f bytes := by
  intro bytes more start stop y h
  change (r bytes >>= f bytes) start = _ at h
  change (r (bytes ++ more) >>= f (bytes ++ more)) start = _
  rw [Cursor.bind_apply, bind_eq_ok] at h ⊢
  obtain ⟨⟨x, middle⟩, hx, hy⟩ := h
  exact ⟨(x, middle), hr bytes more start middle x hx, hf x bytes more middle stop y hy⟩

theorem take (len : ℕ) : Extends fun bytes => Cursor.take bytes len := by
  intro bytes more start stop x h
  simp only [Cursor.take] at h ⊢
  split_ifs at h with hoverflow hfits
  have hlonger : start + len ≤ (bytes ++ more).length := by
    rw [length_append]
    omega
  have hpart : ((bytes ++ more).drop start).take len = (bytes.drop start).take len := by
    rw [drop_append_of_le_length (by omega),
      take_append_of_le_length (by rw [length_drop]; omega)]
  rw [if_neg hoverflow, if_pos hlonger, hpart]
  exact h

theorem ensure {condition : List UInt8 → Prop} [DecidablePred condition] {error : String}
    (hmono : ∀ bytes more, condition bytes → condition (bytes ++ more)) :
    Extends fun bytes => Cursor.ensure (condition bytes) error := by
  intro bytes more start stop x h
  simp only [Cursor.ensure] at h ⊢
  split_ifs at h with hcondition
  rw [if_pos (hmono bytes more hcondition)]
  exact h

theorem count : Extends Cursor.count := by
  refine (take 1).bind fun first => (take _).bind fun raw => (const _).bind fun _ => ?_
  refine (ensure fun bytes more hle => ?_).bind fun _ => const _
  rw [length_append]
  omega

theorem times {item : List UInt8 → Cursor Unit} (hitem : Extends item) (n : ℕ) :
    Extends fun bytes => Cursor.times (item bytes) n := by
  induction n with
  | zero => exact const _
  | succ n ih => exact hitem.bind fun _ => ih

theorem skipVarBytes : Extends Cursor.skipVarBytes :=
  count.bind fun n => (take n).bind fun _ => const _

theorem skipInput : Extends Cursor.skipInput :=
  (take 36).bind fun _ => skipVarBytes.bind fun _ => (take 4).bind fun _ => const _

theorem skipOutput : Extends Cursor.skipOutput := (take 8).bind fun _ => skipVarBytes

theorem skipStack : Extends Cursor.skipStack := count.bind fun items => skipVarBytes.times items

theorem walkBody {f : List UInt8 → ℕ → ℕ → ℕ → Cursor TransactionLayout}
    (hf : ∀ bodyStart inputs bodyEnd, Extends fun bytes => f bytes bodyStart inputs bodyEnd) :
    Extends fun bytes => (do
      let bodyStart ← Cursor.offset
      let inputs ← Cursor.count bytes
      Cursor.ensure (0 < inputs) "transaction has no inputs"
      Cursor.times (Cursor.skipInput bytes) inputs
      let outputs ← Cursor.count bytes
      Cursor.times (Cursor.skipOutput bytes) outputs
      let bodyEnd ← Cursor.offset
      f bytes bodyStart inputs bodyEnd) :=
  (const _).bind fun bodyStart => count.bind fun inputs => (const _).bind fun _ =>
    (skipInput.times inputs).bind fun _ => count.bind fun outputs =>
      (skipOutput.times outputs).bind fun _ => (const _).bind fun bodyEnd =>
        hf bodyStart inputs bodyEnd

theorem walkEnd {f : ℕ → ℕ → Cursor TransactionLayout} : Extends fun bytes => (do
    let locktimeStart ← Cursor.offset
    let _ ← Cursor.take bytes 4
    let len ← Cursor.offset
    f locktimeStart len) :=
  (const _).bind fun _ => (take 4).bind fun _ => (const _).bind fun _ => const _

theorem walkParts (witness : Bool) : Extends fun bytes => QbitPrism.walkParts bytes witness := by
  cases witness with
  | false => exact walkBody fun _ _ _ => walkEnd
  | true =>
    refine (ensure fun bytes more h => ?_).bind fun _ => (take 2).bind fun _ =>
      walkBody fun _ inputs _ => (skipStack.times inputs).bind fun _ => walkEnd
    rw [List.getElem?_append_left (List.getElem?_eq_some_iff.mp h).1]
    exact h

end Extends

theorem walkTransaction_append {tx : List UInt8} {layout : TransactionLayout} (more : List UInt8)
    (h : walkTransaction tx = .ok layout) : walkTransaction (tx ++ more) = .ok layout := by
  simp only [walkTransaction, bind_eq_ok, require_eq_ok, pure_eq_ok] at h ⊢
  obtain ⟨-, hlong, ⟨walked, stop⟩, hwalk, rfl⟩ := h
  refine ⟨(), by rw [length_append]; omega, (walked, stop), ?_, rfl⟩
  rw [List.getElem?_append_left (by omega), List.getElem?_append_left (by omega)]
  exact Extends.walkParts _ tx more 4 stop walked hwalk

theorem walkTransaction_of_strip {tx stripped : List UInt8}
    (h : stripWitnessTransaction tx = .ok stripped) :
    ∃ layout, walkTransaction tx = .ok layout ∧ layout.len = tx.length := by
  simp only [stripWitnessTransaction, bind_eq_ok, require_eq_ok] at h
  obtain ⟨layout, hwalk, -, hlen, -⟩ := h
  exact ⟨layout, hwalk, hlen⟩

def Walked (tx : List UInt8) : Prop := ∃ layout, walkTransaction tx = .ok layout ∧ layout.len = tx.length

theorem Walked.ne_nil {tx : List UInt8} (h : Walked tx) : tx ≠ [] := by
  rintro rfl
  obtain ⟨layout, hwalk, -⟩ := h
  cases hwalk

section Reading

variable {crypto : Crypto} {block pre tx more : List UInt8} {transactions : List (List UInt8)}

theorem restFrom_part (hblock : block = pre ++ more) : restFrom block pre.length = .ok more := by
  rw [restFrom, hblock, if_pos (by rw [length_append]; omega), drop_left]

theorem leavesFrom_cons {count left index : ℕ} (hblock : block = pre ++ (tx ++ more)) (htx : Walked tx) :
    leavesFrom crypto block count (left + 1) index pre.length =
      (leavesFrom crypto block count left (index + 1) (pre ++ tx).length >>= fun later =>
        pure ((if 0 < index then [Hex.encode (crypto.hash256 tx).toList] else []) ++ later.1, later.2)) := by
  obtain ⟨layout, hwalk, hlen⟩ := htx
  rw [leavesFrom, restFrom_part hblock, ok_bind, walkTransaction_append more hwalk]
  simp only [Except.mapError, ok_bind, hlen, take_left, length_append]

theorem leavesFrom_flatten {count index : ℕ} (hblock : block = pre ++ transactions.flatten)
    (hwalked : ∀ tx ∈ transactions, Walked tx) (hindex : 0 < index) :
    leavesFrom crypto block count transactions.length index pre.length =
      .ok (witnessMerkleLeavesHex crypto transactions, block.length) := by
  induction transactions generalizing pre index with
  | nil =>
    rw [flatten_nil, append_nil] at hblock
    rw [hblock]
    rfl
  | cons tx transactions ih =>
    rw [flatten_cons] at hblock
    rw [length_cons, leavesFrom_cons hblock (hwalked tx mem_cons_self),
      ih (by rw [hblock, append_assoc]) (fun other h => hwalked other (mem_cons_of_mem _ h))
        (Nat.succ_pos index), ok_bind, if_pos hindex]
    rfl

theorem blockTransactions_eq_ok {header : List UInt8} {count : ℕ} (hblock : block = header ++ (compactSize count ++ more))
    (hheader : header.length = 80) (hpos : 0 < count) (hcount : count ≤ block.length)
    (hfit : block.length < 2 ^ 64) :
    blockTransactions block = .ok (count, (header ++ compactSize count).length) := by
  have hread := Walks.count hfit hcount header more hblock
  rw [hheader] at hread
  have hlong : 80 ≤ block.length := by
    rw [hblock, length_append]
    omega
  rw [blockTransactions, require_of hlong, ok_bind, hread]
  simp only [Except.mapError, ok_bind, require_of hpos]
  rfl

theorem read_blockBytes {job : Job} {header coinbase : List UInt8} (hheader : header.length = 80)
    (hcoinbase : Walked coinbase) (hwalked : ∀ tx ∈ job.transactions, Walked tx)
    (hfit : (job.blockBytes header coinbase).length < 2 ^ 64) :
    coinbaseFromBlock (job.blockBytes header coinbase) = .ok coinbase ∧
      witnessMerkleLeavesFromBlock crypto (job.blockBytes header coinbase) =
        .ok (witnessMerkleLeavesHex crypto job.transactions) := by
  generalize hblock : job.blockBytes header coinbase = block at hfit ⊢
  rw [Job.blockBytes, Nat.add_comm 1, eq_comm] at hblock
  have hcount : job.transactions.length + 1 ≤ block.length := by
    have htxs := length_le_flatten fun tx htx => (hwalked tx htx).ne_nil
    have hone := length_pos_iff.mpr hcoinbase.ne_nil
    simp only [hblock, length_append]
    omega
  have hstart := blockTransactions_eq_ok hblock hheader (Nat.succ_pos _) hcount hfit
  have hfirst : block = (header ++ compactSize (job.transactions.length + 1)) ++
      (coinbase ++ job.transactions.flatten) := by rw [hblock, append_assoc]
  have hlater : block = (header ++ compactSize (job.transactions.length + 1) ++ coinbase) ++
      job.transactions.flatten := by simp only [hblock, append_assoc]
  constructor
  · obtain ⟨layout, hwalk, hlen⟩ := hcoinbase
    rw [coinbaseFromBlock, hstart, ok_bind]
    simp only [restFrom_part hfirst, ok_bind, walkTransaction_append _ hwalk, Except.mapError, hlen,
      take_left]
    rfl
  · rw [witnessMerkleLeavesFromBlock, hstart, ok_bind]
    simp only [leavesFrom_cons hfirst hcoinbase, leavesFrom_flatten hlater hwalked Nat.one_pos, ok_bind]
    exact bind_eq_ok.mpr ⟨_, rfl, bind_eq_ok.mpr ⟨(), require_of rfl, rfl⟩⟩

end Reading

theorem Walks.next {α β : Type} {bytes pre enc rest : List UInt8} {r : Cursor α} {x : α}
    (hr : Walks bytes r enc x) (hbytes : bytes = pre ++ (enc ++ rest)) (f : α → Cursor β) :
    (r >>= f) pre.length = f x (pre ++ enc).length := by
  rw [Cursor.bind_apply, hr pre rest hbytes, ok_bind]

theorem Cursor.ensure_bind {β : Type} {condition : Prop} [Decidable condition] {error : String}
    (h : condition) (f : Unit → Cursor β) (start : ℕ) :
    (Cursor.ensure condition error >>= f) start = f () start := by
  rw [Cursor.bind_apply, Cursor.ensure, if_pos h, ok_bind]

def coinbaseHead (marker : List UInt8) (size : ℕ) : List UInt8 :=
  leBytes 4 2 ++ (marker ++ (compactSize 1 ++ ((List.replicate 32 0 ++ List.replicate 4 255) ++ compactSize size)))

section Cut

variable {marker script tail placeholder tx : List UInt8}

section
variable (hmarker : marker = [] ∨ marker = [0, 1])
include hmarker

theorem walks_skipMarker (hfit : tx.length < 2 ^ 64)
    (htx : tx = coinbaseHead marker script.length ++ (script ++ tail)) :
    Walks tx (skipMarker tx) marker () := by
  rcases hmarker with rfl | rfl
  · have hplain : ¬ (tx[4]? = some 0 ∧ tx[5]? ≠ some 0) := by
      rw [htx]
      rintro ⟨hfirst, -⟩
      cases hfirst
    rw [skipMarker, if_neg hplain]
    exact Walks.pure ()
  · have hmarked : tx[4]? = some 0 ∧ tx[5]? ≠ some 0 := by
      rw [htx]
      exact ⟨rfl, by rintro ⟨⟩⟩
    rw [skipMarker, if_pos hmarked]
    exact (Walks.take hfit [0, 1]).bind (Walks.pure ())

theorem scriptEnd_eq (hfit : tx.length < 2 ^ 64)
    (htx : tx = coinbaseHead marker script.length ++ (script ++ tail)) :
    scriptEnd tx placeholder 4 =
      Cursor.ensure (placeholder <:+ script) "coinbase scriptSig does not end with extranonce placeholder"
        (coinbaseHead marker script.length ++ script).length := by
  have hscript : script.length ≤ tx.length := by
    simp only [htx, length_append]
    omega
  have hone : 1 ≤ tx.length := by
    simp only [htx, coinbaseHead, length_append, length_leBytes]
    omega
  have hpoint : Walks tx (Cursor.take tx 36) (List.replicate 32 0 ++ List.replicate 4 255) _ :=
    Walks.take hfit (List.replicate 32 0 ++ List.replicate 4 255)
  have hparts : tx = leBytes 4 2 ++ (marker ++ (compactSize 1 ++ ((List.replicate 32 0 ++
      List.replicate 4 255) ++ (compactSize script.length ++ (script ++ tail))))) := by
    rw [htx, coinbaseHead]
    simp only [append_assoc]
  rw [scriptEnd, show 4 = (leBytes 4 2).length from rfl,
    (walks_skipMarker hmarker hfit htx).next hparts,
    (Walks.count hfit hone).next (by rw [hparts]; simp only [append_assoc]; rfl), Cursor.ensure_bind rfl,
    hpoint.next (by rw [hparts]; simp only [append_assoc]; rfl), Cursor.ensure_bind ⟨rfl, rfl⟩,
    (Walks.count hfit hscript).next (by rw [hparts]; simp only [append_assoc]; rfl),
    (Walks.take hfit script).next (by rw [hparts]; simp only [append_assoc]; rfl)]
  simp only [coinbaseHead, append_assoc]

theorem splitCoinbaseExtranonce_eq_ok {before after : List UInt8}
    (hfit : tx.length < 2 ^ 64) (htx : tx = coinbaseHead marker script.length ++ (script ++ tail))
    (h : splitCoinbaseExtranonce tx placeholder = .ok (before, after)) :
    ∃ kept, script = kept ++ placeholder ∧ before = coinbaseHead marker script.length ++ kept ∧
      after = tail := by
  simp only [splitCoinbaseExtranonce, scriptEnd_eq hmarker hfit htx, Cursor.ensure, bind_eq_ok,
    require_eq_ok, pure_eq_ok] at h
  obtain ⟨-, -, ⟨⟨⟩, offset⟩, hend, hcut⟩ := h
  split_ifs at hend with hsuffix
  obtain ⟨kept, rfl⟩ := hsuffix
  obtain rfl : (coinbaseHead marker (kept ++ placeholder).length ++ (kept ++ placeholder)).length = offset := by
    injection hend with hend
    injection hend
  injection hcut with hbefore hafter
  have hkept : tx = (coinbaseHead marker (kept ++ placeholder).length ++ kept) ++ (placeholder ++ tail) := by
    simp only [htx, append_assoc]
  have hoffset : (coinbaseHead marker (kept ++ placeholder).length ++ (kept ++ placeholder)).length -
      placeholder.length = (coinbaseHead marker (kept ++ placeholder).length ++ kept).length := by
    simp only [length_append]
    omega
  refine ⟨kept, rfl, ?_, ?_⟩
  · rw [← hbefore, hoffset, hkept, take_left]
  · rw [← append_assoc] at htx
    rw [← hafter, htx]
    exact drop_left

end

end Cut

end QbitPrism
