import Mathlib

/-!
# Paying every account once

Accounts with different keys are owed amounts. Some are paid directly and the others through
outlays: an outlay is funded as a whole and pays its receivers what is left after a fee. The
result says when everyone is paid exactly once, in full or less its own recorded fee.
-/
namespace Payments
open List

variable {σ : Type*}

/-- A key and an amount paid to it. -/
abbrev Payment (σ : Type*) := σ × ℕ

/-- An account: what it is owed and the fee recorded for it. -/
structure Account (σ : Type*) where
  key : σ
  due : ℕ
  fee : ℕ

/-- A receiver of an outlay: the amount it settles and the amount it is paid. -/
structure Receiver (σ : Type*) where
  key : σ
  covered : ℕ
  paid : ℕ

def Account.owed (a : Account σ) : Payment σ := (a.key, a.due)

def Receiver.settles (r : Receiver σ) : Payment σ := (r.key, r.covered)

def Receiver.payment (r : Receiver σ) : Payment σ := (r.key, r.paid)

def total (payments : List (Payment σ)) : ℕ := (payments.map Prod.snd).sum

theorem total_append (ps qs : List (Payment σ)) : total (ps ++ qs) = total ps + total qs := by
  simp [total]

variable {ps : List (Payment σ)} {p : Payment σ} {r : Receiver σ} {a : Account σ}

theorem total_perm {qs : List (Payment σ)} (h : ps.Perm qs) : total ps = total qs :=
  (h.map Prod.snd).sum_eq

theorem perm_takeOut {α : Type*} {xs ys : List α} {places : List ℕ} (hnd : places.Nodup)
    (h : places.map (fun i => xs[i]?) = ys.map some) :
    ((xs.zipIdx.filter fun p => p.2 ∉ places).map Prod.fst ++ ys).Perm xs := by
  have hplaces : ((xs.zipIdx.filter fun p => p.2 ∈ places).map Prod.snd).Perm places := by
    have hsnd : (xs.zipIdx.map Prod.snd).Nodup := by
      rw [zipIdx_map_snd]
      exact nodup_range'
    refine (perm_ext_iff_of_nodup ((filter_sublist.map _).nodup hsnd) hnd).mpr ?_
    intro i
    simp only [mem_map, mem_filter, decide_eq_true_eq, Prod.exists, exists_eq_right]
    constructor
    · rintro ⟨x, -, hi⟩
      exact hi
    · intro hi
      have hmem : xs[i]? ∈ ys.map some := h ▸ mem_map_of_mem (f := fun i => xs[i]?) hi
      obtain ⟨y, -, hy⟩ := mem_map.mp hmem
      exact ⟨y, mem_zipIdx_iff_getElem?.mpr hy.symm, hi⟩
  have htaken : ((xs.zipIdx.filter fun p => p.2 ∈ places).map Prod.fst).Perm ys := by
    -- An entry with its place is what stands at that place.
    have hentries : ((xs.zipIdx.filter fun p => p.2 ∈ places).map Prod.fst).map some =
        ((xs.zipIdx.filter fun p => p.2 ∈ places).map Prod.snd).map fun i => xs[i]? := by
      rw [map_map, map_map]
      apply map_congr_left
      intro p hp
      exact (mem_zipIdx_iff_getElem?.mp (mem_filter.mp hp).1).symm
    refine (map_perm_map_iff (Option.some_injective α)).mp ?_
    rw [hentries, ← h]
    exact hplaces.map _
  have hsplit := (filter_append_perm (fun p : α × ℕ => p.2 ∉ places) xs.zipIdx).map Prod.fst
  rw [map_append, zipIdx_map_fst] at hsplit
  refine (List.Perm.append_left _ htaken.symm).trans ?_
  convert hsplit using 5
  simp

/-- A settlement of `accounts`: `direct` are to be paid as they are and `receivers` through
the outlays `funds`. What is paid out in the first place is `left`, and `funds`. -/
structure Settlement (accounts : List (Account σ)) (direct : List (Payment σ))
    (receivers : List (Receiver σ)) (funds left : List (Payment σ)) : Prop where
  distinct : (accounts.map Account.key).Nodup
  covers : (direct ++ receivers.map Receiver.settles).Perm (accounts.map Account.owed)
  /-- One payment each, whatever it amounts to. -/
  count : left.length = direct.length
  total_eq : total left + total funds = total (accounts.map Account.owed)
  /-- When the amounts to pay add up to the value, they are paid as they are. -/
  exact : total direct + total funds = total (accounts.map Account.owed) → left.Perm direct

namespace Settlement
variable {accounts : List (Account σ)} {direct funds left : List (Payment σ)}
  {receivers : List (Receiver σ)} (h : Settlement accounts direct receivers funds left)
include h

theorem keys_nodup : ((direct ++ receivers.map Receiver.settles).map Prod.fst).Nodup := by
  rw [(h.covers.map Prod.fst).nodup_iff, map_map]
  exact h.distinct

theorem direct_keys_nodup : (direct.map Prod.fst).Nodup := by
  have hnd := h.keys_nodup
  rw [map_append] at hnd
  exact hnd.of_append_left

theorem receiver_keys_nodup : (receivers.map Receiver.key).Nodup := by
  have hnd := h.keys_nodup
  rw [map_append, map_map] at hnd
  exact hnd.of_append_right

theorem keys_disjoint (hp : p ∈ direct) (hr : r ∈ receivers) : p.1 ≠ r.key := by
  have hnd := h.keys_nodup
  rw [map_append, map_map] at hnd
  exact (nodup_append.mp hnd).2.2 _ (mem_map_of_mem hp) _
    (mem_map_of_mem (f := Prod.fst ∘ Receiver.settles) hr)

theorem covered (ha : a ∈ accounts) : a.owed ∈ direct ∨ ∃ r ∈ receivers, r.settles = a.owed := by
  have hmem := h.covers.mem_iff.mpr (mem_map_of_mem ha)
  rcases mem_append.mp hmem with hd | hr
  · exact .inl hd
  · exact .inr (mem_map.mp hr)

theorem account_of_direct (hp : p ∈ direct) : ∃ a ∈ accounts, a.owed = p :=
  mem_map.mp (h.covers.mem_iff.mp (mem_append_left _ hp))

theorem account_of_receiver (hr : r ∈ receivers) : ∃ a ∈ accounts, a.owed = r.settles :=
  mem_map.mp (h.covers.mem_iff.mp (mem_append_right _ (mem_map_of_mem hr)))

theorem total_due : total (accounts.map Account.owed) =
    total direct + total (receivers.map Receiver.settles) := by
  rw [← total_perm h.covers, total_append]

end Settlement

variable [DecidableEq σ]

def paymentsTo (key : σ) (payments : List (Payment σ)) : List ℕ :=
  (payments.filter fun p => p.1 = key).map Prod.snd

/-- One direct payment of what is due, or one payment through an outlay of what is due less
the fee, and nothing else. -/
def PaidOnce (direct through : List (Payment σ)) (a : Account σ) : Prop :=
  (paymentsTo a.key direct = [a.due] ∧ paymentsTo a.key through = []) ∨
    (paymentsTo a.key direct = [] ∧ ∃ x, paymentsTo a.key through = [x] ∧ x + a.fee = a.due)

instance (direct through : List (Payment σ)) (a : Account σ) : Decidable (PaidOnce direct through a) :=
  decidable_of_iff ((paymentsTo a.key direct = [a.due] ∧ paymentsTo a.key through = []) ∨
    (paymentsTo a.key direct = [] ∧
      ∃ x ∈ paymentsTo a.key through, paymentsTo a.key through = [x] ∧ x + a.fee = a.due)) (by
    refine or_congr_right (and_congr_right fun _ => ⟨?_, ?_⟩)
    · rintro ⟨x, -, hx⟩
      exact ⟨x, hx⟩
    · rintro ⟨x, hx⟩
      exact ⟨x, hx.1 ▸ mem_singleton_self x, hx⟩)

theorem paymentsTo_append (key : σ) (ps qs : List (Payment σ)) :
    paymentsTo key (ps ++ qs) = paymentsTo key ps ++ paymentsTo key qs := by
  simp [paymentsTo]

theorem paymentsTo_flatMap {β : Type*} (key : σ) (f : β → List (Payment σ)) (xs : List β) :
    paymentsTo key (xs.flatMap f) = xs.flatMap fun x => paymentsTo key (f x) := by
  simp only [paymentsTo, filter_flatMap, map_flatMap]

theorem paymentsTo_eq_nil {key : σ} : paymentsTo key ps = [] ↔ key ∉ ps.map Prod.fst := by
  rw [paymentsTo, map_eq_nil_iff, filter_eq_nil_iff, mem_map, not_exists]
  simp only [decide_eq_true_eq, not_and]

theorem paymentsTo_of_mem (hnd : (ps.map Prod.fst).Nodup) (hp : p ∈ ps) : paymentsTo p.1 ps = [p.2] := by
  induction ps with
  | nil => exact absurd hp not_mem_nil
  | cons q ps ih =>
    rw [map_cons, nodup_cons] at hnd
    rcases mem_cons.mp hp with rfl | hmem
    · rw [paymentsTo, filter_cons_of_pos (by simp), map_cons]
      exact congrArg _ (paymentsTo_eq_nil.mpr hnd.1)
    · have hne : ¬q.1 = p.1 := fun h => hnd.1 (h ▸ mem_map_of_mem hmem)
      rw [paymentsTo, filter_cons_of_neg (by simpa using hne)]
      exact ih hnd.2 hmem

namespace Settlement
variable {accounts : List (Account σ)} {direct funds left : List (Payment σ)}
  {receivers : List (Receiver σ)} (h : Settlement accounts direct receivers funds left)
include h

theorem through_of_receiver (hr : r ∈ receivers) : paymentsTo r.key (receivers.map Receiver.payment) = [r.paid] := by
  have hnd : ((receivers.map Receiver.payment).map Prod.fst).Nodup := by
    rw [map_map]
    exact h.receiver_keys_nodup
  exact paymentsTo_of_mem hnd (mem_map_of_mem hr)

theorem through_of_direct (hp : p ∈ direct) : paymentsTo p.1 (receivers.map Receiver.payment) = [] := by
  rw [paymentsTo_eq_nil, map_map]
  intro hmem
  obtain ⟨r, hr, hkey⟩ := mem_map.mp hmem
  exact h.keys_disjoint hp hr hkey.symm

theorem paid_of_funded (hfee : ∀ r ∈ receivers, ∀ a ∈ accounts, a.key = r.key → r.paid + a.fee = r.covered)
    (hfunds : total funds = total (receivers.map Receiver.settles)) (ha : a ∈ accounts) :
    PaidOnce left (receivers.map Receiver.payment) a := by
  have hleft : left.Perm direct := h.exact (by rw [h.total_due, hfunds])
  have hkeys : (left.map Prod.fst).Nodup := (hleft.map Prod.fst).nodup_iff.mpr h.direct_keys_nodup
  rcases h.covered ha with hd | ⟨r, hr, hra⟩
  · exact .inl ⟨paymentsTo_of_mem hkeys (hleft.mem_iff.mpr hd), h.through_of_direct hd⟩
  · have hkey : r.key = a.key := congrArg Prod.fst hra
    have hdue : r.covered = a.due := congrArg Prod.snd hra
    refine .inr ⟨?_, r.paid, hkey ▸ h.through_of_receiver hr, hdue ▸ hfee r hr a ha hkey.symm⟩
    rw [paymentsTo_eq_nil, (hleft.map Prod.fst).mem_iff]
    intro hmem
    obtain ⟨p, hp, hpa⟩ := mem_map.mp hmem
    exact h.keys_disjoint hp hr (hpa.trans hkey.symm)

section
variable (hpaid : ∀ a ∈ accounts, PaidOnce left (receivers.map Receiver.payment) a)
include hpaid

theorem fee_of_paid (hr : r ∈ receivers) (ha : a ∈ accounts) (hkey : a.key = r.key) : r.paid + a.fee = r.covered := by
  have hthrough := h.through_of_receiver hr
  obtain ⟨b, hb, hbr⟩ := h.account_of_receiver hr
  have hab : a = b := inj_on_of_nodup_map h.distinct ha hb (hkey.trans (congrArg Prod.fst hbr).symm)
  have hdue : a.due = r.covered := hab ▸ congrArg Prod.snd hbr
  rcases hpaid a ha with ⟨-, hnone⟩ | ⟨-, x, hx, hxa⟩
  · rw [hkey, hthrough] at hnone
    exact absurd hnone (cons_ne_nil _ _)
  · rw [hkey, hthrough] at hx
    rw [(List.cons.inj hx).1, hxa, hdue]

theorem left_perm_of_paid :
    direct.Perm left := by
  have hsubset : direct ⊆ left := by
    intro p hp
    obtain ⟨a, ha, rfl⟩ := h.account_of_direct hp
    -- Nothing reaches a direct account through an outlay, so it has its one direct payment.
    rcases hpaid a ha with ⟨hone, -⟩ | ⟨-, x, hx, -⟩
    · have hmem : a.due ∈ paymentsTo a.key left := hone ▸ mem_singleton_self _
      obtain ⟨q, hq, hqd⟩ := mem_map.mp hmem
      obtain ⟨hq, hqk⟩ := mem_filter.mp hq
      rwa [Account.owed, ← hqd, ← of_decide_eq_true hqk]
    · rw [show a.key = a.owed.1 from rfl, h.through_of_direct hp] at hx
      exact absurd hx.symm (cons_ne_nil _ _)
  have hnd : direct.Nodup := List.Nodup.of_map _ h.direct_keys_nodup
  exact (subperm_of_subset hnd hsubset).perm_of_length_le h.count.le

end

theorem paidOnce_iff : (∀ a ∈ accounts, PaidOnce left (receivers.map Receiver.payment) a) ↔
    (∀ r ∈ receivers, ∀ a ∈ accounts, a.key = r.key → r.paid + a.fee = r.covered) ∧
      total funds = total (receivers.map Receiver.settles) := by
  constructor
  · intro hpaid
    refine ⟨fun r hr a ha hkey => h.fee_of_paid hpaid hr ha hkey, ?_⟩
    have hleft := total_perm (h.left_perm_of_paid hpaid)
    have htotal := h.total_eq
    rw [h.total_due] at htotal
    omega
  · rintro ⟨hfee, hfunds⟩ a ha
    exact h.paid_of_funded hfee hfunds ha

end Settlement

end Payments
