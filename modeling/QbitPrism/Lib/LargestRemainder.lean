import Mathlib
import QbitPrism.Lib.Checked
import QbitPrism.Lib.MachineInt

/-!
# Largest-remainder apportionment

A total is split in proportion to weights: every entry first gets the floor of
its exact quota, and the units left over go one each to the entries that come
first in an order that puts larger remainders earlier. The tie break below
equal remainders is a parameter; nothing proved here depends on it.
-/
namespace LargestRemainder
open MachineInt Checked List

/-- One entry during a split: its amount so far and the remainder of its quota. -/
structure Provisional (w : ℕ) (α : Type*) where
  entry : α
  amount : Unsigned w
  remainder : ℕ

variable {w : ℕ} {α : Type*}

def held (ps : List (Provisional w α)) : ℕ := (ps.map fun p => p.amount.val).sum

/-- The indices of the entries, first to be bumped first; stable. -/
def remainderOrder (le : Provisional w α → Provisional w α → Prop) [DecidableRel le]
    (ps : List (Provisional w α)) : List ℕ :=
  (ps.zipIdx.insertionSort fun a b => le a.1 b.1).map Prod.snd

/-- Add one unit to the entry at `i`. -/
def bumpAt (ps : List (Provisional w α)) (i : ℕ) : Option (List (Provisional w α)) :=
  ps[i]?.bind fun p =>
    (Unsigned.ofNat? (p.amount.val + 1)).map fun amount => ps.set i { p with amount }

def bumpAll (ps : List (Provisional w α)) (idx : List ℕ) : Option (List (Provisional w α)) :=
  idx.foldlM bumpAt ps

theorem floors_add_remainders (total W : ℕ) (ws : List ℕ) :
    W * (ws.map fun x => total * x / W).sum + (ws.map fun x => total * x % W).sum =
      total * ws.sum := by
  have hsplit : (ws.map fun x => W * (total * x / W) + total * x % W) = ws.map fun x => total * x :=
    map_congr_left fun x _ => Nat.div_add_mod (total * x) W
  rw [← sum_map_mul_left, ← sum_map_add, hsplit, sum_map_mul_left, map_id']

theorem sum_quota_le (total : ℕ) {ws : List ℕ} (hW : 0 < ws.sum) :
    (ws.map fun x => total * x / ws.sum).sum ≤ total := by
  have h := floors_add_remainders total ws.sum ws
  refine Nat.le_of_mul_le_mul_left ?_ hW
  rw [Nat.mul_comm ws.sum total]
  omega

variable {total : ℕ}

theorem leftover_mul {ws : List ℕ} (hW : 0 < ws.sum) :
    ws.sum * (total - (ws.map fun x => total * x / ws.sum).sum) =
      (ws.map fun x => total * x % ws.sum).sum := by
  have h := floors_add_remainders total ws.sum ws
  have hle := sum_quota_le total hW
  rw [Nat.mul_sub, Nat.mul_comm ws.sum total]
  omega

variable {W x : ℕ}

theorem quota_le_weight (h : total ≤ W) : total * x / W ≤ x := by
  rcases Nat.eq_zero_or_pos W with rfl | hW
  · simp
  · exact Nat.div_le_of_le_mul (Nat.mul_le_mul_right x h)

theorem quota_succ_le_weight (h : total ≤ W) (hr : total * x % W ≠ 0) : total * x / W + 1 ≤ x := by
  have hdm := Nat.div_add_mod (total * x) W
  have hle : total * x ≤ W * x := Nat.mul_le_mul_right x h
  have hlt : W * (total * x / W) < W * x := by omega
  exact Nat.lt_of_mul_lt_mul_left hlt

theorem quota_le_total (total : ℕ) (h : x ≤ W) : total * x / W ≤ total := by
  rcases Nat.eq_zero_or_pos W with rfl | hW
  · simp
  · refine Nat.div_le_of_le_mul ?_
    rw [Nat.mul_comm W total]
    exact Nat.mul_le_mul_left total h

/-- An amount a split of `total` may give to weight `x` out of `W`: the floor of the
quota, or one more when the quota is not whole. -/
def IsQuota (total W x amount : ℕ) : Prop :=
  amount = total * x / W ∨ (amount = total * x / W + 1 ∧ total * x % W ≠ 0)

theorem IsQuota.le_weight {amount : ℕ} (hq : IsQuota total W x amount) (h : total ≤ W) :
    amount ≤ x := by
  rcases hq with rfl | ⟨rfl, hr⟩
  · exact quota_le_weight h
  · exact quota_succ_le_weight h hr

theorem IsQuota.eq_weight {amount : ℕ} (hq : IsQuota W W x amount) (hW : 0 < W) : amount = x := by
  rcases hq with rfl | ⟨-, hr⟩
  · exact Nat.mul_div_cancel_left x hW
  · exact absurd (Nat.mul_mod_right W x) hr

/-- In a descending list of numbers below `W`, the first `k` are positive as soon
as the whole list adds up to more than `W * (k - 1)`. -/
theorem take_pos {k : ℕ} {rs : List ℕ} (hdesc : rs.Pairwise (· ≥ ·)) (hlt : ∀ r ∈ rs, r < W)
    (hk : W * k < rs.sum + W) : k ≤ rs.length ∧ ∀ r ∈ rs.take k, 0 < r := by
  induction rs generalizing k with
  | nil =>
    have hk0 : k = 0 := by
      by_contra hne
      have : W ≤ W * k := Nat.le_mul_of_pos_right W (Nat.pos_of_ne_zero hne)
      simp only [sum_nil, Nat.zero_add] at hk
      omega
    subst hk0
    simp
  | cons r rs ih =>
    cases k with
    | zero => simp
    | succ k =>
      rw [pairwise_cons] at hdesc
      have hr : r < W := hlt r mem_cons_self
      rw [sum_cons, Nat.mul_succ] at hk
      have hpos : 0 < r := by
        by_contra hzero
        -- A zero head forces the whole tail to zero.
        have htail : rs.sum = 0 := by
          apply sum_eq_zero
          intro x hx
          have := hdesc.1 x hx
          omega
        omega
      obtain ⟨hlen, htake⟩ := ih hdesc.2 (fun x hx => hlt x (mem_cons_of_mem _ hx))
        (by omega : W * k < rs.sum + W)
      refine ⟨by simpa using hlen, ?_⟩
      intro x hx
      rw [take_succ_cons, mem_cons] at hx
      rcases hx with rfl | hx
      · exact hpos
      · exact htake x hx

variable {ps ps' : List (Provisional w α)} {i : ℕ}

theorem bumpAt_eq_some (h : bumpAt ps i = some ps') :
    ∃ p a, ps[i]? = some p ∧ a.val = p.amount.val + 1 ∧ ps' = ps.set i { p with amount := a } := by
  obtain ⟨p, hp, h⟩ := Option.bind_eq_some_iff.mp h
  obtain ⟨a, ha, rfl⟩ := Option.map_eq_some_iff.mp h
  exact ⟨p, a, hp, Unsigned.ofNat?_eq_some.mp ha, rfl⟩

theorem bumpAt_held (h : bumpAt ps i = some ps') : held ps' = held ps + 1 := by
  obtain ⟨p, a, hp, ha, rfl⟩ := bumpAt_eq_some h
  obtain ⟨hi, rfl⟩ := List.getElem?_eq_some_iff.mp hp
  have hold := sum_take_add_sum_drop (ps.map fun p => p.amount.val) i
  rw [drop_eq_getElem_cons (by simpa using hi), sum_cons] at hold
  simp only [held, map_set, sum_set, length_map, hi, ↓reduceIte, ha]
  simp only [getElem_map] at hold
  omega

variable {idx : List ℕ}

theorem bumpAll_held (h : bumpAll ps idx = some ps') : held ps' = held ps + idx.length := by
  induction idx generalizing ps with
  | nil =>
    cases h
    rfl
  | cons i idx ih =>
    obtain ⟨mid, hmid, hrest⟩ := Option.bind_eq_some_iff.mp h
    rw [ih hrest, bumpAt_held hmid, length_cons]
    omega

theorem bumpAll_getElem? (hnd : idx.Nodup) (h : bumpAll ps idx = some ps') (j : ℕ)
    {p' : Provisional w α} (hp' : ps'[j]? = some p') :
    ∃ p, ps[j]? = some p ∧ p'.entry = p.entry ∧ p'.remainder = p.remainder ∧
      p'.amount.val = p.amount.val + if j ∈ idx then 1 else 0 := by
  induction idx generalizing ps with
  | nil =>
    cases h
    exact ⟨p', hp', rfl, rfl, by simp⟩
  | cons i idx ih =>
    obtain ⟨mid, hmid, hrest⟩ := Option.bind_eq_some_iff.mp h
    obtain ⟨hi, hnd⟩ := nodup_cons.mp hnd
    obtain ⟨q, hq, hentry, hrem, hval⟩ := ih hnd hrest
    obtain ⟨p, a, hp, ha, rfl⟩ := bumpAt_eq_some hmid
    rw [List.getElem?_set] at hq
    split_ifs at hq with hij hlen
    · subst hij
      cases hq
      refine ⟨p, hp, hentry, hrem, ?_⟩
      simp only [hi, ↓reduceIte, mem_cons, true_or, Nat.add_zero] at hval ⊢
      rw [hval, ha]
    · refine ⟨q, hq, hentry, hrem, ?_⟩
      rw [hval]
      simp only [mem_cons, Ne.symm hij, false_or]

theorem bumpAll_length (h : bumpAll ps idx = some ps') : ps'.length = ps.length := by
  induction idx generalizing ps with
  | nil =>
    cases h
    rfl
  | cons i idx ih =>
    obtain ⟨mid, hmid, hrest⟩ := Option.bind_eq_some_iff.mp h
    obtain ⟨p, a, -, -, rfl⟩ := bumpAt_eq_some hmid
    rw [ih hrest, length_set]

theorem bumpAll_entries (hnd : idx.Nodup) (h : bumpAll ps idx = some ps') :
    ps'.map (·.entry) = ps.map (·.entry) := by
  apply ext_getElem?
  intro j
  have hlen := bumpAll_length h
  rw [List.getElem?_map, List.getElem?_map]
  cases hp' : ps'[j]? with
  | none =>
    rw [List.getElem?_eq_none_iff, hlen, ← List.getElem?_eq_none_iff] at hp'
    rw [hp']
  | some p' =>
    obtain ⟨p, hp, hentry, -, -⟩ := bumpAll_getElem? hnd h j hp'
    simp only [hp, Option.map_some, hentry]

theorem bumpAll_isSome (hidx : ∀ i ∈ idx, i < ps.length) (hfit : held ps + idx.length < 2 ^ w) :
    ∃ ps', bumpAll ps idx = some ps' := by
  induction idx generalizing ps with
  | nil => exact ⟨ps, rfl⟩
  | cons i idx ih =>
    have hi : i < ps.length := hidx i mem_cons_self
    rw [length_cons] at hfit
    have hle : ps[i].amount.val ≤ held ps :=
      single_le_sum (fun _ _ => Nat.zero_le _) _
        (mem_map_of_mem (getElem_mem hi))
    obtain ⟨a, ha⟩ := Unsigned.ofNat?_isSome.mpr
      (by omega : ps[i].amount.val + 1 < 2 ^ w)
    have hmid : bumpAt ps i = some (ps.set i { ps[i] with amount := a }) := by
      simp only [bumpAt, List.getElem?_eq_getElem hi, Option.bind_some, ha, Option.map_some]
    have hheld := bumpAt_held hmid
    have hrest : ∀ j ∈ idx, j < (ps.set i { ps[i] with amount := a }).length :=
      fun j hj => by simpa using hidx j (mem_cons_of_mem _ hj)
    obtain ⟨ps', hps'⟩ := ih hrest (by omega)
    exact ⟨ps', by simp only [bumpAll, foldlM_cons, hmid]; exact hps'⟩

section Split
variable (le : Provisional w α → Provisional w α → Prop) [DecidableRel le]

theorem remainderOrder_perm (ps : List (Provisional w α)) :
    (remainderOrder le ps).Perm (List.range ps.length) := by
  unfold remainderOrder
  refine ((perm_insertionSort _ ps.zipIdx).map Prod.snd).trans ?_
  rw [zipIdx_map_snd, range_eq_range']

theorem remainderOrder_nodup (ps : List (Provisional w α)) (k : ℕ) :
    ((remainderOrder le ps).take k).Nodup :=
  (take_sublist _ _).nodup ((remainderOrder_perm le ps).nodup_iff.mpr nodup_range)

variable [Std.Total le] [IsTrans _ le]

theorem remainderOrder_desc (hle : ∀ a b, le a b → b.remainder ≤ a.remainder) (ps : List (Provisional w α)) :
    ((ps.zipIdx.insertionSort fun a b => le a.1 b.1).map fun p => p.1.remainder).Pairwise (· ≥ ·) := by
  have : Std.Total (fun a b : Provisional w α × ℕ => le a.1 b.1) := ⟨fun a b => Std.Total.total a.1 b.1⟩
  have : IsTrans (Provisional w α × ℕ) (fun a b => le a.1 b.1) :=
    ⟨fun a b c hab hbc => IsTrans.trans a.1 b.1 c.1 hab hbc⟩
  rw [pairwise_map]
  exact (pairwise_insertionSort (fun a b : Provisional w α × ℕ => le a.1 b.1) ps.zipIdx).imp
    (fun {a b} h => hle a.1 b.1 h)

/-- A split of `total` over weights: the floors as first amounts, the leftover
handed out in remainder order. -/
structure IsSplit (total : ℕ) (weight : α → ℕ) (ps : List (Provisional w α)) : Prop where
  positive : 0 < (ps.map fun p => weight p.entry).sum
  amount : ∀ p ∈ ps, p.amount.val = total * weight p.entry / (ps.map fun p => weight p.entry).sum
  remainder : ∀ p ∈ ps, p.remainder = total * weight p.entry % (ps.map fun p => weight p.entry).sum

variable {total : ℕ} {weight : α → ℕ} {ps ps' : List (Provisional w α)}

theorem IsSplit.of_mapM {ε : Type*} {β : Type*} {f : β → Except ε (Provisional w α)} {es : List β}
    {wt : β → ℕ} (hW : W = (es.map wt).sum) (hpos : 0 < W) (h : es.mapM f = .ok ps)
    (hf : ∀ e p, f e = .ok p → weight p.entry = wt e ∧ p.amount.val = total * wt e / W ∧ p.remainder = total * wt e % W) :
    IsSplit total weight ps := by
  have hweights : (ps.map fun p => weight p.entry).sum = W := by
    rw [hW, map_eq_of_mapM_ok wt (fun p : Provisional w α => weight p.entry) h fun e p hp => (hf e p hp).1]
  refine ⟨hweights ▸ hpos, ?_, ?_⟩ <;> intro p hp <;> obtain ⟨e, -, he⟩ := mem_of_mapM_ok h hp <;>
    obtain ⟨hweight, hamount, hremainder⟩ := hf e p he
  · rw [hweights, hweight, hamount]
  · rw [hweights, hweight, hremainder]

section
variable (h : IsSplit total weight ps) (hle : ∀ a b, le a b → b.remainder ≤ a.remainder)

include h in
theorem IsSplit.held_eq :
    held ps = ((ps.map fun p => weight p.entry).map
      fun x => total * x / (ps.map fun p => weight p.entry).sum).sum := by
  rw [held, map_map]
  exact congrArg List.sum (map_congr_left h.amount)

include h in
theorem IsSplit.held_le : held ps ≤ total := by
  rw [h.held_eq]
  exact sum_quota_le total h.positive

include h in
theorem IsSplit.leftover :
    (ps.map fun p => weight p.entry).sum * (total - held ps) = (ps.map (·.remainder)).sum := by
  rw [h.held_eq, leftover_mul h.positive, map_map]
  exact congrArg List.sum (map_congr_left fun p hp => (h.remainder p hp).symm)

omit [Std.Total le] [IsTrans _ le] in
theorem order_perm_remainders (ps : List (Provisional w α)) :
    ((ps.zipIdx.insertionSort fun a b => le a.1 b.1).map fun p => p.1.remainder).Perm
      (ps.map (·.remainder)) := by
  refine ((perm_insertionSort _ ps.zipIdx).map _).trans ?_
  rw [show (fun p : Provisional w α × ℕ => p.1.remainder) = (·.remainder) ∘ Prod.fst from rfl,
    ← map_map, zipIdx_map_fst]

include h hle

theorem IsSplit.take_order :
    total - held ps ≤ ps.length ∧
      ∀ q ∈ (ps.zipIdx.insertionSort fun a b => le a.1 b.1).take (total - held ps),
        0 < q.1.remainder := by
  have hperm := order_perm_remainders le ps
  have hlt : ∀ r ∈ (ps.zipIdx.insertionSort fun a b => le a.1 b.1).map fun p => p.1.remainder,
      r < (ps.map fun p => weight p.entry).sum := by
    intro r hr
    obtain ⟨p, hp, rfl⟩ := mem_map.mp (hperm.mem_iff.mp hr)
    rw [h.remainder p hp]
    exact Nat.mod_lt _ h.positive
  have hsum := h.leftover
  rw [← hperm.sum_eq] at hsum
  obtain ⟨hlen, htake⟩ := take_pos (remainderOrder_desc le hle ps) hlt
    (by have := h.positive; omega :
      (ps.map fun p => weight p.entry).sum * (total - held ps) < _)
  refine ⟨by simpa [(perm_insertionSort _ ps.zipIdx).length_eq] using hlen, ?_⟩
  intro q hq
  apply htake
  rw [← map_take]
  exact mem_map_of_mem hq

variable {p : Provisional w α}

theorem IsSplit.bumped_remainder {j : ℕ} (hp : ps[j]? = some p)
    (hj : j ∈ (remainderOrder le ps).take (total - held ps)) : 0 < p.remainder := by
  unfold remainderOrder at hj
  rw [← map_take] at hj
  obtain ⟨q, hq, rfl⟩ := mem_map.mp hj
  have hmem := (perm_insertionSort _ ps.zipIdx).mem_iff.mp (mem_of_mem_take hq)
  rw [mem_zipIdx_iff_getElem?, hp] at hmem
  cases hmem
  exact (h.take_order le hle).2 q hq

theorem IsSplit.finish
    (hb : bumpAll ps ((remainderOrder le ps).take (total - held ps)) = some ps') :
    held ps' = total ∧ ∀ p' ∈ ps',
      IsQuota total (ps.map fun p => weight p.entry).sum (weight p'.entry) p'.amount.val := by
  have hnd := remainderOrder_nodup le ps (total - held ps)
  refine ⟨?_, ?_⟩
  · rw [bumpAll_held hb, length_take, (remainderOrder_perm le ps).length_eq, length_range,
      Nat.min_eq_left (h.take_order le hle).1]
    have := h.held_le
    omega
  · intro p' hp'
    obtain ⟨j, hj⟩ := mem_iff_getElem?.mp hp'
    obtain ⟨p, hp, hentry, -, hval⟩ := bumpAll_getElem? hnd hb j hj
    have hmem : p ∈ ps := mem_of_getElem? hp
    rw [IsQuota, hentry, hval, h.amount p hmem, ← h.remainder p hmem]
    by_cases hbump : j ∈ (remainderOrder le ps).take (total - held ps)
    · right
      have := h.bumped_remainder le hle hp hbump
      rw [if_pos hbump]
      omega
    · left
      rw [if_neg hbump, Nat.add_zero]

omit h in
theorem bumped_of_larger {j k : ℕ} {q : Provisional w α} (hp : ps[i]? = some p) (hq : ps[j]? = some q)
    (hlt : q.remainder < p.remainder) (hj : j ∈ (remainderOrder le ps).take k) :
    i ∈ (remainderOrder le ps).take k := by
  by_contra hi
  have hmem : i ∈ remainderOrder le ps := by
    rw [(remainderOrder_perm le ps).mem_iff, mem_range]
    exact (List.getElem?_eq_some_iff.mp hp).1
  rw [← take_append_drop k (remainderOrder le ps)] at hmem
  have hlate := (mem_append.mp hmem).resolve_left hi
  have hat : ∀ {x : Provisional w α × ℕ} {r : Provisional w α} {n : ℕ},
      x ∈ ps.zipIdx.insertionSort (fun a b => le a.1 b.1) → x.2 = n → ps[n]? = some r → x.1 = r := by
    intro x r n hx hn hr
    rw [mem_insertionSort, mem_zipIdx_iff_getElem?, hn, hr] at hx
    exact (Option.some.inj hx).symm
  -- the order is descending, so nobody after `j` has more than `j`
  unfold remainderOrder at hj hlate
  rw [← map_take] at hj
  rw [← map_drop] at hlate
  obtain ⟨x, hx, hxj⟩ := mem_map.mp hj
  obtain ⟨y, hy, hyi⟩ := mem_map.mp hlate
  have hdesc := pairwise_map.mp (remainderOrder_desc le hle ps)
  rw [← take_append_drop k (ps.zipIdx.insertionSort fun a b => le a.1 b.1)] at hdesc
  have horder := (pairwise_append.mp hdesc).2.2 x hx y hy
  rw [hat (mem_of_mem_take hx) hxj hq, hat (mem_of_mem_drop hy) hyi hp] at horder
  omega

theorem IsSplit.finish_mono
    (hb : bumpAll ps ((remainderOrder le ps).take (total - held ps)) = some ps') {q : Provisional w α} (hp : p ∈ ps')
    (hq : q ∈ ps') (hlt : weight q.entry < weight p.entry) : q.amount.val ≤ p.amount.val := by
  have hnd := remainderOrder_nodup le ps (total - held ps)
  obtain ⟨i, hi⟩ := mem_iff_getElem?.mp hp
  obtain ⟨j, hj⟩ := mem_iff_getElem?.mp hq
  obtain ⟨p0, hp0, hpentry, -, hpval⟩ := bumpAll_getElem? hnd hb i hi
  obtain ⟨q0, hq0, hqentry, -, hqval⟩ := bumpAll_getElem? hnd hb j hj
  rw [hpentry, hqentry] at hlt
  have hpamount := h.amount p0 (mem_of_getElem? hp0)
  have hqamount := h.amount q0 (mem_of_getElem? hq0)
  have hpremainder := h.remainder p0 (mem_of_getElem? hp0)
  have hqremainder := h.remainder q0 (mem_of_getElem? hq0)
  have hfloors : q0.amount.val ≤ p0.amount.val := by
    rw [hpamount, hqamount]
    exact Nat.div_le_div_right (Nat.mul_le_mul_left total hlt.le)
  by_cases hbump : j ∈ (remainderOrder le ps).take (total - held ps)
  · rcases Nat.lt_or_eq_of_le hfloors with hless | hequal
    · rw [hpval, hqval]
      split_ifs <;> omega
    · -- equal floors: the larger weight has the larger remainder
      have hpositive := h.bumped_remainder le hle hq0 hbump
      have hp_split := Nat.div_add_mod (total * weight p0.entry) (ps.map fun p => weight p.entry).sum
      have hq_split := Nat.div_add_mod (total * weight q0.entry) (ps.map fun p => weight p.entry).sum
      have htotal : 0 < total := by
        by_contra hzero
        rw [hqremainder, Nat.eq_zero_of_not_pos hzero, Nat.zero_mul, Nat.zero_mod] at hpositive
        omega
      have hproducts := Nat.mul_lt_mul_of_pos_left hlt htotal
      rw [← hpamount, ← hpremainder] at hp_split
      rw [← hqamount, ← hqremainder, hequal] at hq_split
      have hremainders : q0.remainder < p0.remainder := by omega
      rw [hpval, hqval, if_pos hbump, if_pos (bumped_of_larger le hle hp0 hq0 hremainders hbump)]
      omega
  · rw [hpval, hqval, if_neg hbump]
    omega

theorem IsSplit.finish_isSome (hfit : total < 2 ^ w) :
    ∃ ps', bumpAll ps ((remainderOrder le ps).take (total - held ps)) = some ps' := by
  apply bumpAll_isSome
  · intro i hi
    exact mem_range.mp ((remainderOrder_perm le ps).mem_iff.mp (mem_of_mem_take hi))
  · rw [length_take, (remainderOrder_perm le ps).length_eq, length_range, Nat.min_eq_left (h.take_order le hle).1]
    have := h.held_le
    omega

end

end Split

section Relabel
variable {β : Type*}

def Provisional.map (f : α → β) (p : Provisional w α) : Provisional w β :=
  ⟨f p.entry, p.amount, p.remainder⟩

theorem held_map (f : α → β) (ps : List (Provisional w α)) : held (ps.map (.map f)) = held ps := by
  rw [held, map_map]
  rfl

theorem bumpAt_map (f : α → β) (ps : List (Provisional w α)) (i : ℕ) :
    bumpAt (ps.map (.map f)) i = (bumpAt ps i).map (List.map (.map f)) := by
  rw [bumpAt, bumpAt, List.getElem?_map]
  cases ps[i]? with
  | none => rfl
  | some p =>
    change ((Unsigned.ofNat? (p.amount.val + 1)).map fun amount => _) =
      ((Unsigned.ofNat? (p.amount.val + 1)).map fun amount => _).map _
    rw [Option.map_map]
    congr 1
    funext amount
    rw [Function.comp_apply, map_set]
    rfl

theorem bumpAll_map (f : α → β) (ps : List (Provisional w α)) (idx : List ℕ) :
    bumpAll (ps.map (.map f)) idx = (bumpAll ps idx).map (List.map (.map f)) := by
  induction idx generalizing ps with
  | nil => rfl
  | cons i idx ih =>
    change (bumpAt (ps.map (.map f)) i).bind (bumpAll · idx) =
      ((bumpAt ps i).bind (bumpAll · idx)).map _
    rw [bumpAt_map]
    cases bumpAt ps i with
    | none => rfl
    | some mid => exact ih mid

theorem remainderOrder_map {f : α → β} {le : Provisional w α → Provisional w α → Prop} [DecidableRel le]
    {le' : Provisional w β → Provisional w β → Prop} [DecidableRel le'] (ps : List (Provisional w α))
    (hle : ∀ a b, le a b ↔ le' (a.map f) (b.map f)) :
    remainderOrder le' (ps.map (.map f)) = remainderOrder le ps := by
  unfold remainderOrder
  rw [zipIdx_map, ← map_insertionSort (fun a b => le a.1 b.1) (fun a b => le' a.1 b.1)
    (Prod.map (Provisional.map f) id) ps.zipIdx fun a _ b _ => hle a.1 b.1, map_map]
  rfl

end Relabel

end LargestRemainder
