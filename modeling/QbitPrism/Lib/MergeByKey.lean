import Mathlib
import QbitPrism.Lib.Checked

/-!
# Merging rows by key

Rows are folded into an ordered map: the first row of a key makes a fresh value
and every row of that key, the first included, is then added to it. Whatever
measure the addition adds up is, per key and over the whole map, the sum over
the rows.
-/
namespace MergeByKey
open Std List

/-- How rows are merged: their key, the value a first row makes, and the addition. -/
structure Merger (κ ρ σ ε : Type) where
  key : ρ → κ
  fresh : ρ → σ
  add : σ → ρ → Except ε σ

variable {κ ρ σ ε : Type} {cmp : κ → κ → Ordering} (M : Merger κ ρ σ ε)

def Merger.step (m : TreeMap κ σ cmp) (r : ρ) : Except ε (TreeMap κ σ cmp) := do
  let s ← M.add (m.getD (M.key r) (M.fresh r)) r
  pure (m.insert (M.key r) s)

def Merger.merge (rows : List ρ) : Except ε (TreeMap κ σ cmp) :=
  rows.foldlM M.step ∅

variable {m m' : TreeMap κ σ cmp} {r : ρ}

theorem Merger.step_eq_ok (h : M.step m r = .ok m') :
    ∃ s, M.add (m.getD (M.key r) (M.fresh r)) r = .ok s ∧ m' = m.insert (M.key r) s := by
  simp only [Merger.step, Checked.bind_eq_ok, Checked.pure_eq_ok] at h
  obtain ⟨s, hs, rfl⟩ := h
  exact ⟨s, hs, rfl⟩

section MapSums
variable {A : Type} [AddCommMonoid A] [TransCmp cmp] [LawfulEqCmp cmp]

def valueSum (f : σ → A) (m : TreeMap κ σ cmp) : A := (m.toList.map fun kv => f kv.2).sum

omit [LawfulEqCmp cmp] in
theorem toList_nodup (m : TreeMap κ σ cmp) : m.toList.Nodup :=
  List.Nodup.of_map Prod.fst (TreeMap.map_fst_toList_eq_keys (t := m) ▸ TreeMap.nodup_keys)

theorem filter_key_toList [DecidableEq κ] (m : TreeMap κ σ cmp) (k : κ) :
    m.toList.filter (fun kv => kv.1 = k) = (m[k]?.map fun v => (k, v)).toList := by
  cases hk : m[k]? with
  | none =>
    simp only [Option.map_none, Option.toList_none, filter_eq_nil_iff, decide_eq_true_eq]
    rintro ⟨k', v⟩ hmem rfl
    rw [TreeMap.mem_toList_iff_getElem?_eq_some, hk] at hmem
    exact nomatch hmem
  | some v =>
    have hperm : (m.toList.filter fun kv => kv.1 = k).Perm [(k, v)] := by
      refine (perm_ext_iff_of_nodup ((toList_nodup m).filter _) (nodup_singleton _)).mpr ?_
      rintro ⟨k', v'⟩
      simp only [mem_filter, decide_eq_true_eq, mem_singleton, Prod.mk.injEq, TreeMap.mem_toList_iff_getElem?_eq_some]
      constructor
      · rintro ⟨hv, rfl⟩
        exact ⟨rfl, Option.some.inj (hv.symm.trans hk)⟩
      · rintro ⟨rfl, rfl⟩
        exact ⟨hk, rfl⟩
    simpa using perm_singleton.mp hperm

theorem valueSum_insert (f : σ → A) (m : TreeMap κ σ cmp) (k : κ) (v : σ) :
    valueSum f (m.insert k v) + (m[k]?.elim 0 f) = valueSum f m + f v := by
  classical
  have hsplit := (filter_append_perm (fun kv : κ × σ => decide (kv.1 = k)) m.toList).map
    (fun kv => f kv.2)
  have hold : ((m.toList.filter fun kv => kv.1 = k).map fun kv => f kv.2).sum = m[k]?.elim 0 f := by
    rw [filter_key_toList]
    cases m[k]? <;> simp
  have hcmp : (fun kv : κ × σ => decide ¬(k == kv.1) = true) = fun kv => !decide (kv.1 = k) := by
    funext kv
    rw [← decide_not]
    exact decide_eq_decide.mpr (by rw [beq_iff_eq, eq_comm])
  rw [map_append] at hsplit
  rw [valueSum, valueSum, ((TreeMap.toList_insert_perm (t := m) (k := k) (v := v)).map (fun kv => f kv.2)).sum_eq, ←
    hsplit.sum_eq, map_cons, sum_cons, sum_append, hold, hcmp]
  abel

end MapSums

variable [TransCmp cmp] [LawfulEqCmp cmp]

variable {rows : List ρ} {s : σ}

theorem Merger.merge_invariant {M : Merger κ ρ σ ε} (P : κ → σ → Prop)
    (hfresh : ∀ r ∈ rows, P (M.key r) (M.fresh r))
    (hadd : ∀ r ∈ rows, ∀ s s', M.add s r = .ok s' → P (M.key r) s → P (M.key r) s')
    (h : M.merge rows = .ok m) {k : κ} (hs : m[k]? = some s) : P k s := by
  suffices key : (∀ r ∈ rows, r ∈ rows) → ∀ k s, m[k]? = some s → P k s from
    key (fun _ => id) k s hs
  refine Checked.foldlM_ok_induction
    (fun done (m : TreeMap κ σ cmp) => (∀ r ∈ done, r ∈ rows) → ∀ k s, m[k]? = some s → P k s)
    (fun _ k s hs => absurd hs (by simp)) ?_ h
  intro done r acc acc' ih hstep hsub k s hs
  have hr : r ∈ rows := hsub r (by simp)
  have ih := ih (fun x hx => hsub x (mem_append_left _ hx))
  obtain ⟨v, hv, rfl⟩ := M.step_eq_ok hstep
  rw [TreeMap.getElem?_insert] at hs
  split_ifs at hs with hk
  · cases LawfulEqCmp.eq_of_compare hk
    cases hs
    refine hadd r hr _ _ hv ?_
    rw [TreeMap.getD_eq_getD_getElem?]
    cases hold : acc[M.key r]? with
    | none => exact hfresh r hr
    | some old => exact ih _ _ hold
  · exact ih k s hs

theorem Merger.merge_fiber_induction [DecidableEq κ] {M : Merger κ ρ σ ε} {P : List ρ → σ → Prop}
    (hfirst : ∀ r s, M.add (M.fresh r) r = .ok s → P [r] s)
    (hadd : ∀ done r s s', P done s → M.add s r = .ok s' → P (done ++ [r]) s') (h : M.merge rows = .ok m) {k : κ}
    (hs : m[k]? = some s) : P (rows.filter fun r => M.key r = k) s := by
  suffices key : ∀ k, m[k]?.elim (rows.filter (fun r => M.key r = k) = [])
      (P (rows.filter fun r => M.key r = k)) by
    have hkey := key k
    rw [hs] at hkey
    exact hkey
  refine Checked.foldlM_ok_induction (fun done (m : TreeMap κ σ cmp) => ∀ k,
    m[k]?.elim (done.filter (fun r => M.key r = k) = []) (P (done.filter fun r => M.key r = k))) ?_ ?_ h
  · intro k
    simp
  · intro done r acc acc' ih hstep k
    obtain ⟨v, hv, rfl⟩ := M.step_eq_ok hstep
    rw [TreeMap.getElem?_insert, filter_append]
    split_ifs with hk
    · cases LawfulEqCmp.eq_of_compare hk
      have ih := ih (M.key r)
      rw [TreeMap.getD_eq_getD_getElem?] at hv
      rw [Option.elim_some, filter_singleton, decide_eq_true rfl, cond_true]
      cases hold : acc[M.key r]? with
      | none =>
        rw [hold] at ih hv
        rw [ih]
        exact hfirst r v hv
      | some old =>
        rw [hold] at ih hv
        exact hadd _ r old v ih hv
    · have hne : M.key r ≠ k := fun heq => hk (LawfulEqCmp.compare_eq_iff_eq.mpr heq)
      rw [filter_singleton, decide_eq_false hne, cond_false, append_nil]
      exact ih k

/-- What a merge of `rows` left in the map, for a measure `μ` of values to which
every row contributes its `ν`. -/
structure Summed [DecidableEq κ] {A : Type} [AddCommMonoid A] (M : Merger κ ρ σ ε) (μ : σ → A)
    (ν : ρ → A) (rows : List ρ) (m : TreeMap κ σ cmp) : Prop where
  keys : ∀ k, k ∈ m ↔ ∃ r ∈ rows, M.key r = k
  perKey : ∀ k, m[k]?.elim 0 μ = ((rows.filter fun r => M.key r = k).map ν).sum
  total : valueSum μ m = (rows.map ν).sum

section Summed
variable [DecidableEq κ] {A : Type} [AddCancelCommMonoid A] {M : Merger κ ρ σ ε} {μ : σ → A}
  {ν : ρ → A} {rows : List ρ}

omit [LawfulEqCmp cmp] in
theorem Summed.nil : Summed M μ ν [] (∅ : TreeMap κ σ cmp) where
  keys k := by simp
  perKey k := by simp
  total := by simp [valueSum, show (∅ : TreeMap κ σ cmp).toList = [] from rfl]

omit [LawfulEqCmp cmp] [DecidableEq κ] in
theorem Merger.measure_getD (m : TreeMap κ σ cmp) (hfresh : ∀ r, μ (M.fresh r) = 0)
    (r : ρ) : μ (m.getD (M.key r) (M.fresh r)) = m[M.key r]?.elim 0 μ := by
  rw [TreeMap.getD_eq_getD_getElem?]
  cases m[M.key r]? with
  | none => exact hfresh r
  | some s => rfl

omit [TransCmp cmp] [LawfulEqCmp cmp] [DecidableEq κ] in
theorem Merger.step_of_add {s' : σ} (h : M.add (m.getD (M.key r) (M.fresh r)) r = .ok s') :
    M.step m r = .ok (m.insert (M.key r) s') := by
  simp only [Merger.step, h, Checked.ok_bind]
  rfl

section
variable (hfresh : ∀ r, μ (M.fresh r) = 0) (hadd : ∀ r s s', M.add s r = .ok s' → μ s' = μ s + ν r)
include hfresh hadd

theorem Summed.step (hstep : M.step m r = .ok m') (h : Summed M μ ν rows m) : Summed M μ ν (rows ++ [r]) m' := by
  obtain ⟨v, hv, rfl⟩ := M.step_eq_ok hstep
  have hval : μ v = m[M.key r]?.elim 0 μ + ν r := by
    rw [hadd _ _ _ hv, M.measure_getD m hfresh]
  refine ⟨fun k => ?_, fun k => ?_, ?_⟩
  · rw [TreeMap.mem_insert, h.keys, LawfulEqCmp.compare_eq_iff_eq]
    simp only [mem_append, mem_singleton, or_and_right, exists_or, exists_eq_left]
    exact or_comm
  · rw [TreeMap.getElem?_insert, filter_append, map_append, sum_append, ← h.perKey]
    by_cases hk : M.key r = k
    · subst hk
      simp [hval]
    · simp [LawfulEqCmp.compare_eq_iff_eq, hk]
  · refine add_right_cancel (b := m[M.key r]?.elim 0 μ) ?_
    rw [valueSum_insert, hval, h.total, map_append, sum_append]
    simp only [map_cons, map_nil, sum_cons, sum_nil]
    abel

theorem Merger.merge_summed (h : M.merge rows = .ok m) : Summed M μ ν rows m :=
  Checked.foldlM_ok_induction (fun done m => Summed M μ ν done m) Summed.nil
    (fun _ _ _ _ ih hstep => ih.step hfresh hadd hstep) h

theorem Summed.foldlM_step {more : List ρ} (h : Summed M μ ν rows m) (hmore : more.foldlM M.step m = .ok m') : Summed M μ ν (rows ++ more) m' := by
  refine Checked.foldlM_ok_induction (fun done m => Summed M μ ν (rows ++ done) m) ?_ ?_ hmore
  · rw [append_nil]
    exact h
  · intro done r acc acc' ih hstep
    rw [← append_assoc]
    exact ih.step hfresh hadd hstep

theorem Merger.merge_isOk (hok : ∀ done r s, done ++ [r] <+: rows →
      μ s = ((done.filter fun x => M.key x = M.key r).map ν).sum → ∃ s', M.add s r = .ok s') :
    ∃ m : TreeMap κ σ cmp, M.merge rows = .ok m := by
  obtain ⟨m, hm, -⟩ := Checked.foldlM_isOk M.step rows ∅
    (fun done (m : TreeMap κ σ cmp) => Summed M μ ν done m) Summed.nil (fun done r acc hpre ih => by
      obtain ⟨s', hs'⟩ := hok done r (acc.getD (M.key r) (M.fresh r)) hpre
        ((M.measure_getD acc hfresh r).trans (ih.perKey _))
      have hstep := M.step_of_add hs'
      exact ⟨_, hstep, ih.step hfresh hadd hstep⟩)
  exact ⟨m, hm⟩

end

end Summed

section Bounded
variable [DecidableEq κ] {M : Merger κ ρ σ ε} {μ : σ → ℕ} {ν : ρ → ℕ} {bound : ℕ}
variable (hfresh : ∀ r, μ (M.fresh r) = 0) (hadd : ∀ r s s', M.add s r = .ok s' → μ s' = μ s + ν r)
  (hok : ∀ s r, μ s + ν r < bound → ∃ s', M.add s r = .ok s')
include hfresh hadd hok

theorem Summed.foldlM_isOk {more : List ρ} (h : Summed M μ ν rows m)
    (hfits : ((rows ++ more).map ν).sum < bound) : ∃ m', more.foldlM M.step m = .ok m' := by
  obtain ⟨m', hm', -⟩ := Checked.foldlM_isOk M.step more m
    (fun done (m : TreeMap κ σ cmp) => Summed M μ ν (rows ++ done) m) ((append_nil rows).symm ▸ h) (by
      rintro done r acc ⟨rest, rfl⟩ ih
      have hvalue : μ (acc.getD (M.key r) (M.fresh r)) ≤ ((rows ++ done).map ν).sum := by
        rw [M.measure_getD acc hfresh, ih.perKey]
        exact (filter_sublist.map ν).sum_le_sum fun _ _ => Nat.zero_le _
      simp only [map_append, sum_append, map_cons, map_nil, sum_cons, sum_nil] at hfits hvalue
      obtain ⟨s', hs'⟩ := hok (acc.getD (M.key r) (M.fresh r)) r (by omega)
      have hstep := M.step_of_add hs'
      rw [← append_assoc]
      exact ⟨_, hstep, ih.step hfresh hadd hstep⟩)
  exact ⟨m', hm'⟩

theorem Merger.merge_isOk_of_lt (hfits : (rows.map ν).sum < bound) : ∃ m : TreeMap κ σ cmp, M.merge rows = .ok m :=
  Summed.nil.foldlM_isOk hfresh hadd hok hfits

end Bounded

variable {A : Type}

theorem Summed.of_entries [DecidableEq κ] [AddCommMonoid A] {M : Merger κ (κ × σ) σ ε} {μ : σ → A}
    (hkey : ∀ r, M.key r = r.1) {rows more : List (κ × σ)} {part : TreeMap κ σ cmp}
    (hpart : Summed M μ (fun r => μ r.2) more part) (h : Summed M μ (fun r => μ r.2) (rows ++ part.toList) m) :
    Summed M μ (fun r => μ r.2) (rows ++ more) m := by
  have hentries : ∀ k, ((part.toList.filter fun r => M.key r = k).map fun r => μ r.2).sum =
      ((more.filter fun r => M.key r = k).map fun r => μ r.2).sum := by
    intro k
    rw [← hpart.perKey k]
    simp only [hkey]
    rw [filter_key_toList]
    cases part[k]? <;> simp
  refine ⟨?_, ?_, ?_⟩
  · intro k
    rw [h.keys k]
    simp only [mem_append, or_and_right, exists_or]
    rw [← hpart.keys k, TreeMap.mem_iff_isSome_getElem?, Option.isSome_iff_exists]
    simp only [hkey, Prod.exists, TreeMap.mem_toList_iff_getElem?_eq_some]
    refine or_congr_right ⟨?_, ?_⟩
    · rintro ⟨k, s, hs, rfl⟩
      exact ⟨s, hs⟩
    · rintro ⟨s, hs⟩
      exact ⟨k, s, hs, rfl⟩
  · intro k
    rw [h.perKey k, filter_append, filter_append, map_append, map_append, sum_append, sum_append, hentries k]
  · rw [h.total, map_append, map_append, sum_append, sum_append, ← hpart.total]
    rfl

structure TotalMerger (κ ρ σ : Type) where
  key : ρ → κ
  fresh : ρ → σ
  add : σ → ρ → σ

def TotalMerger.merge (T : TotalMerger κ ρ σ) (rows : List ρ) : TreeMap κ σ cmp :=
  rows.foldl (fun m r => m.insert (T.key r) (T.add (m.getD (T.key r) (T.fresh r)) r)) ∅

def TotalMerger.toMerger (T : TotalMerger κ ρ σ) : Merger κ ρ σ Empty where
  key := T.key
  fresh := T.fresh
  add s r := .ok (T.add s r)

omit [TransCmp cmp] [LawfulEqCmp cmp] in
theorem TotalMerger.toMerger_merge (T : TotalMerger κ ρ σ) (rows : List ρ) :
    (T.toMerger.merge rows : Except Empty (TreeMap κ σ cmp)) = .ok (T.merge rows) :=
  foldlM_pure

theorem TotalMerger.merge_summed [DecidableEq κ] [AddCancelCommMonoid A] (T : TotalMerger κ ρ σ) {μ : σ → A}
    {ν : ρ → A} (hfresh : ∀ r, μ (T.fresh r) = 0) (hadd : ∀ r s, μ (T.add s r) = μ s + ν r) (rows : List ρ) :
    Summed T.toMerger μ ν rows (T.merge rows : TreeMap κ σ cmp) :=
  Merger.merge_summed hfresh
    (fun r s s' h => by cases h; exact hadd r s) (T.toMerger_merge rows)

theorem filter_key_eq_singleton [DecidableEq κ] (key : ρ → κ) (hnd : (rows.map key).Nodup)
    (hr : r ∈ rows) : (rows.filter fun x => key x = key r) = [r] := by
  refine perm_singleton.mp ((perm_ext_iff_of_nodup ((List.Nodup.of_map _ hnd).filter _)
    (nodup_singleton _)).mpr fun x => ?_)
  simp only [mem_filter, decide_eq_true_eq, mem_singleton]
  constructor
  · rintro ⟨hx, heq⟩
    exact inj_on_of_nodup_map hnd hx hr heq
  · rintro rfl
    exact ⟨hr, rfl⟩

theorem find?_key_eq_some [DecidableEq κ] (key : ρ → κ) (hnd : (rows.map key).Nodup) (hr : r ∈ rows) :
    (rows.find? fun x => key x = key r) = some r := by
  rw [← List.head?_filter, filter_key_eq_singleton key hnd hr, List.head?_cons]

theorem sum_fibers [DecidableEq κ] [AddCommMonoid A] {keys : List κ} (hnd : keys.Nodup)
    (key : ρ → κ) (f : ρ → A) (hcover : ∀ r ∈ rows, key r ∈ keys) :
    (keys.map fun k => ((rows.filter fun r => key r = k).map f).sum).sum = (rows.map f).sum := by
  induction rows with
  | nil => simp
  | cons r rows ih =>
    have hone : (keys.map fun k => if key r = k then f r else 0).sum = f r := by
      rw [← sum_toFinset _ hnd]
      simp [hcover r mem_cons_self]
    rw [map_cons, sum_cons, ← ih fun x hx => hcover x (mem_cons_of_mem _ hx), ← hone, ← sum_map_add]
    refine congrArg List.sum (map_congr_left fun k _ => ?_)
    by_cases hk : key r = k <;> simp [hk]

def values (m : TreeMap κ σ cmp) : List σ := m.toList.map Prod.snd

theorem mem_values : s ∈ values m ↔ ∃ k : κ, m[k]? = some s := by
  simp only [values, mem_map, Prod.exists, exists_eq_right, TreeMap.mem_toList_iff_getElem?_eq_some]

theorem values_map_key (keyOf : σ → κ) (h : ∀ k s, m[k]? = some s → keyOf s = k) :
    (values m).map keyOf = m.keys := by
  rw [← TreeMap.map_fst_toList_eq_keys, values, map_map]
  refine map_congr_left fun kv hkv => ?_
  exact h kv.1 kv.2 (TreeMap.mem_toList_iff_getElem?_eq_some.mp hkv)

end MergeByKey
