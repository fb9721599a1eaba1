import Mathlib
import QbitPrism.Lib.ByteReader

/-!
# Records written one after another

A writer is told apart at the front of a stream when its value and the rest of the stream are
fixed by the bytes. Numbers of one width and strings with their length in front are; and a list of
records without a count is read back whole when every record is told apart from the records after it.
-/
namespace Framing
open ByteReader List

variable {α : Type*} {β : Type*}

/-- Whatever follows, the stream fixes a value with this property and what comes after it. -/
def SelfDelimiting (P : α → Prop) (write : α → List β) : Prop :=
  ∀ ⦃a b⦄, P a → P b → ∀ ⦃s t⦄, write a ++ s = write b ++ t → a = b ∧ s = t

/-- The same where only further records of the kind follow. -/
def Separates (P : α → Prop) (write : α → List β) : Prop :=
  ∀ ⦃a b⦄, P a → P b → ∀ ⦃xs ys : List α⦄, (∀ x ∈ xs, P x) → (∀ y ∈ ys, P y) →
    write a ++ xs.flatMap write = write b ++ ys.flatMap write →
      a = b ∧ xs.flatMap write = ys.flatMap write

variable {P : α → Prop} {write : α → List β}

theorem SelfDelimiting.of_length (width : ℕ) (hwidth : ∀ a, (write a).length = width)
    (hinj : ∀ ⦃a b⦄, P a → P b → write a = write b → a = b) : SelfDelimiting P write := by
  intro a b ha hb s t h
  obtain ⟨hwrite, hrest⟩ := append_inj h (by rw [hwidth, hwidth])
  exact ⟨hinj ha hb hwrite, hrest⟩

theorem SelfDelimiting.separates (h : SelfDelimiting P write) : Separates P write :=
  fun _ _ ha hb _ _ _ _ heq => h ha hb heq

theorem Separates.flatMap_injective (h : Separates P write) (hne : ∀ a, P a → write a ≠ []) {xs ys : List α}
    (hxs : ∀ x ∈ xs, P x) (hys : ∀ y ∈ ys, P y) (heq : xs.flatMap write = ys.flatMap write) : xs = ys := by
  induction xs generalizing ys with
  | nil =>
    cases ys with
    | nil => rfl
    | cons y ys =>
      rw [flatMap_nil, flatMap_cons] at heq
      exact absurd (append_eq_nil_iff.mp heq.symm).1 (hne y (hys y mem_cons_self))
  | cons x xs ih =>
    obtain ⟨hx, hrestx⟩ := forall_mem_cons.mp hxs
    cases ys with
    | nil =>
      rw [flatMap_nil, flatMap_cons] at heq
      exact absurd (append_eq_nil_iff.mp heq).1 (hne x hx)
    | cons y ys =>
      obtain ⟨hy, hresty⟩ := forall_mem_cons.mp hys
      rw [flatMap_cons, flatMap_cons] at heq
      obtain ⟨rfl, hrest⟩ := h hx hy hrestx hresty heq
      rw [ih hrestx hresty hrest]

@[simp] theorem length_beBytes (width value : ℕ) : (beBytes width value).length = width := by
  rw [beBytes, length_reverse, length_leBytes]

theorem beBytes_injective {width a b : ℕ} (ha : a < 256 ^ width) (hb : b < 256 ^ width)
    (h : beBytes width a = beBytes width b) : a = b := by
  rw [← ofLeBytes_leBytes ha, ← ofLeBytes_leBytes hb, reverse_injective h]

theorem selfDelimiting_beBytes (width : ℕ) : SelfDelimiting (· < 256 ^ width) (beBytes width) :=
  .of_length width (length_beBytes width) fun _ _ ha hb => beBytes_injective ha hb

theorem selfDelimiting_beBytesSigned (width : ℕ) :
    SelfDelimiting (fun value : ℤ => -256 ^ width ≤ 2 * value ∧ 2 * value < 256 ^ width)
      (beBytesSigned width) := by
  refine .of_length width (fun _ => length_beBytes _ _) ?_
  rintro a b ⟨halow, hahigh⟩ ⟨hblow, hbhigh⟩ h
  have hpos : (0 : ℤ) < 256 ^ width := by positivity
  have hlt : ∀ value : ℤ, (value % 256 ^ width).toNat < 256 ^ width := by
    intro value
    have hmod := Int.emod_lt_of_pos value hpos
    have hnonneg := Int.emod_nonneg value hpos.ne'
    zify
    rw [Int.toNat_of_nonneg hnonneg]
    exact hmod
  have hsame : a % 256 ^ width = b % 256 ^ width := by
    have hnat := beBytes_injective (hlt a) (hlt b) h
    have ha := Int.toNat_of_nonneg (Int.emod_nonneg a hpos.ne')
    have hb := Int.toNat_of_nonneg (Int.emod_nonneg b hpos.ne')
    rw [← ha, ← hb, hnat]
  have hdvd : (256 : ℤ) ^ width ∣ b - a := Int.ModEq.dvd hsame
  obtain ⟨k, hk⟩ := hdvd
  have hzero : k = 0 := by
    by_contra hne
    rcases lt_or_gt_of_ne hne with hneg | hpositive
    · nlinarith
    · nlinarith
  rw [hzero, mul_zero] at hk
  omega

end Framing
