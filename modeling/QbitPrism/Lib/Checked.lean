import Mathlib

/-!
# Fallible computations

What a successful `Except` computation establishes. Each combinator has one
inversion lemma, so a validator is read off as the list of checks it passed.
-/
namespace Checked
open List
universe u v w
variable {ε : Type u} {α β : Type v}

/-- An optional value as a result, with the error to report when it is absent. -/
def okOr (o : Option α) (e : ε) : Except ε α :=
  match o with
  | some a => .ok a
  | none => .error e

/-- A guard: the condition holds, or the computation ends with `e`. -/
def require (c : Prop) [Decidable c] (e : ε) : Except ε Unit :=
  if c then .ok () else .error e

@[simp] theorem okOr_eq_ok {o : Option α} {e : ε} {a : α} : okOr o e = .ok a ↔ o = some a := by
  cases o <;> simp [okOr]

@[simp] theorem okOr_some {e : ε} {a : α} : okOr (some a) e = .ok a := rfl

@[simp] theorem okOr_eq_error {o : Option α} {e e' : ε} :
    okOr o e = .error e' ↔ o = none ∧ e = e' := by
  cases o <;> simp [okOr]

@[simp] theorem require_eq_ok {c : Prop} [Decidable c] {e : ε} {u : Unit} :
    require c e = .ok u ↔ c := by
  unfold require
  split_ifs with hc <;> simp [hc]

theorem require_of {c : Prop} [Decidable c] {e : ε} (h : c) : require c e = .ok () :=
  require_eq_ok.mpr h

theorem require_of_not {c : Prop} [Decidable c] {e : ε} (h : ¬c) : require c e = .error e :=
  if_neg h

@[simp] theorem require_eq_error {c : Prop} [Decidable c] {e e' : ε} :
    require c e = .error e' ↔ ¬c ∧ e = e' := by
  unfold require
  split_ifs with hc <;> simp [hc]

@[simp] theorem bind_eq_ok {x : Except ε α} {f : α → Except ε β} {b : β} :
    (x >>= f) = .ok b ↔ ∃ a, x = .ok a ∧ f a = .ok b := by
  cases x <;> simp [bind, Except.bind]

@[simp] theorem pure_eq_ok {a b : α} : (pure a : Except ε α) = .ok b ↔ a = b := by
  simp [pure, Except.pure]

@[simp] theorem ok_bind {a : α} {f : α → Except ε β} :
    ((Except.ok a : Except ε α) >>= f) = f a := rfl

@[simp] theorem error_bind {e : ε} {f : α → Except ε β} :
    ((Except.error e : Except ε α) >>= f) = .error e := rfl

theorem exists_of_isOk {x : Except ε α} (h : x.isOk = true) : ∃ a, x = .ok a := by
  cases x with
  | error e => exact nomatch h
  | ok a => exact ⟨a, rfl⟩

theorem exists_of_any {x : Except ε α} {p : α → Bool} (h : x.toOption.any p = true) :
    ∃ a, x = .ok a ∧ p a = true := by
  cases x with
  | error e => cases h
  | ok a => exact ⟨a, rfl, h⟩

@[simp] theorem mapError_eq_ok {ε' : Type*} {x : Except ε α} {f : ε → ε'} {a : α} :
    x.mapError f = .ok a ↔ x = .ok a := by
  cases x <;> simp [Except.mapError]

theorem bind_eq_error {x : Except ε α} {f : α → Except ε β} {e : ε} :
    (x >>= f) = .error e ↔ x = .error e ∨ ∃ a, x = .ok a ∧ f a = .error e := by
  cases x <;> simp [bind, Except.bind]

section Traversal
variable {α : Type w} {f : α → Except ε β} {R : α → β → Prop} {xs : List α} {ys : List β}

theorem mapM_eq_ok : xs.mapM f = .ok ys ↔ List.Forall₂ (fun x y => f x = .ok y) xs ys := by
  induction xs generalizing ys with
  | nil =>
    simp only [mapM_nil, pure_eq_ok, List.forall₂_nil_left_iff]
    exact eq_comm
  | cons x xs ih =>
    simp only [mapM_cons, bind_eq_ok, pure_eq_ok, List.forall₂_cons_left_iff]
    constructor
    · rintro ⟨y, hy, zs, hzs, rfl⟩
      exact ⟨y, zs, hy, ih.mp hzs, rfl⟩
    · rintro ⟨y, zs, hy, hzs, rfl⟩
      exact ⟨y, hy, zs, ih.mpr hzs, rfl⟩

theorem exists_of_forall₂ (h : List.Forall₂ R xs ys) {x : α} (hx : x ∈ xs) : ∃ y ∈ ys, R x y := by
  induction h with
  | nil => exact absurd hx not_mem_nil
  | cons hxy _ ih =>
    rcases mem_cons.mp hx with rfl | hx
    · exact ⟨_, mem_cons_self, hxy⟩
    · obtain ⟨y, hmem, hy⟩ := ih hx
      exact ⟨y, mem_cons_of_mem _ hmem, hy⟩

theorem exists_of_mapM_error {e : ε} (h : xs.mapM f = .error e) : ∃ x ∈ xs, f x = .error e := by
  induction xs with
  | nil => exact nomatch h
  | cons x xs ih =>
    rw [mapM_cons, bind_eq_error] at h
    rcases h with hx | ⟨y, -, h⟩
    · exact ⟨x, mem_cons_self, hx⟩
    · rw [bind_eq_error] at h
      rcases h with hxs | ⟨ys, -, h⟩
      · obtain ⟨z, hz, hfz⟩ := ih hxs
        exact ⟨z, mem_cons_of_mem _ hz, hfz⟩
      · exact nomatch h

theorem exists_of_mapM_ok (h : xs.mapM f = .ok ys) {x : α} (hx : x ∈ xs) : ∃ y ∈ ys, f x = .ok y :=
  exists_of_forall₂ (mapM_eq_ok.mp h) hx

theorem mem_of_mapM_ok (h : xs.mapM f = .ok ys) {y : β} (hy : y ∈ ys) : ∃ x ∈ xs, f x = .ok y :=
  exists_of_forall₂ (mapM_eq_ok.mp h).flip hy

theorem map_eq_of_forall₂ {γ : Type*} (g : α → γ) (g' : β → γ) (h : List.Forall₂ R xs ys)
    (hfg : ∀ x y, R x y → g' y = g x) : ys.map g' = xs.map g := by
  refine List.forall₂_eq_eq_eq ▸ List.forall₂_map_left_iff.mpr (List.forall₂_map_right_iff.mpr ?_)
  exact h.flip.imp fun y x hxy => hfg x y hxy

theorem map_eq_of_mapM_ok {γ : Type*} (g : α → γ) (g' : β → γ) (h : xs.mapM f = .ok ys)
    (hfg : ∀ x y, f x = .ok y → g' y = g x) : ys.map g' = xs.map g :=
  map_eq_of_forall₂ g g' (mapM_eq_ok.mp h) hfg

theorem mapM_isOk (f : α → Except ε β) (h : ∀ x ∈ xs, ∃ y, f x = .ok y) : ∃ ys, xs.mapM f = .ok ys := by
  induction xs with
  | nil => exact ⟨[], rfl⟩
  | cons x xs ih =>
    obtain ⟨y, hy⟩ := h x (mem_cons_self)
    obtain ⟨ys, hys⟩ := ih (fun z hz => h z (mem_cons_of_mem _ hz))
    exact ⟨y :: ys, by simp only [mapM_cons, hy, hys, ok_bind]; rfl⟩

end Traversal

/-- Invariant rule for a fallible left fold: `P done acc` holds of the elements
consumed so far and the accumulator they produced. -/
theorem foldlM_ok_induction {f : β → α → Except ε β} {xs : List α} {init out : β}
    (P : List α → β → Prop) (hinit : P [] init)
    (hstep : ∀ done x acc acc', P done acc → f acc x = .ok acc' → P (done ++ [x]) acc')
    (h : xs.foldlM f init = .ok out) : P xs out := by
  suffices key : ∀ (rest done : List α) (acc : β), P done acc → rest.foldlM f acc = .ok out →
      P (done ++ rest) out from key xs [] init hinit h
  intro rest
  induction rest with
  | nil =>
    intro done acc hacc hrun
    simp only [foldlM_nil, pure_eq_ok] at hrun
    simpa only [append_nil, ← hrun] using hacc
  | cons x rest ih =>
    intro done acc hacc hrun
    simp only [foldlM_cons, bind_eq_ok] at hrun
    obtain ⟨mid, hmid, hrest⟩ := hrun
    have := ih (done ++ [x]) mid (hstep _ _ _ _ hacc hmid) hrest
    simpa only [append_assoc, singleton_append] using this

theorem foldlM_isOk (f : β → α → Except ε β) (xs : List α) (init : β) (P : List α → β → Prop) (hinit : P [] init)
    (hstep : ∀ done x acc, done ++ [x] <+: xs → P done acc → ∃ acc', f acc x = .ok acc' ∧ P (done ++ [x]) acc') :
    ∃ out, xs.foldlM f init = .ok out ∧ P xs out := by
  suffices key : ∀ (rest done : List α) (acc : β), done ++ rest = xs → P done acc →
      ∃ out, rest.foldlM f acc = .ok out ∧ P xs out from key xs [] init rfl hinit
  intro rest
  induction rest with
  | nil =>
    intro done acc hxs hacc
    rw [append_nil] at hxs
    exact ⟨acc, rfl, hxs ▸ hacc⟩
  | cons x rest ih =>
    intro done acc hxs hacc
    have hpre : done ++ [x] <+: xs := ⟨rest, by simpa using hxs⟩
    obtain ⟨acc', hok, hP⟩ := hstep done x acc hpre hacc
    obtain ⟨out, hout, hPout⟩ := ih (done ++ [x]) acc' (by simpa using hxs) hP
    exact ⟨out, by simp only [foldlM_cons, hok, ok_bind, hout], hPout⟩

end Checked
