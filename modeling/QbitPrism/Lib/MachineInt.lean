import Mathlib

/-!
# Bounded integers and checked arithmetic

A fixed-width integer is a number together with its bound, so no operation can
build an out-of-range value. Checked operations return `none` on overflow;
every one is characterized by the exact mathematical result it stands for.
-/
namespace MachineInt

/-- An unsigned integer of `w` bits. -/
@[ext]
structure Unsigned (w : ℕ) where
  val : ℕ
  isLt : val < 2 ^ w
  deriving DecidableEq

/-- A signed two's-complement integer of `w` bits. -/
@[ext]
structure Signed (w : ℕ) where
  val : ℤ
  lower : -2 ^ (w - 1) ≤ val
  upper : val < 2 ^ (w - 1)
  deriving DecidableEq

abbrev U16 := Unsigned 16
abbrev U32 := Unsigned 32
abbrev U64 := Unsigned 64
abbrev U128 := Unsigned 128
abbrev I64 := Signed 64
abbrev I128 := Signed 128

namespace Unsigned
variable {w : ℕ}

instance instOfNat (n : ℕ) : OfNat (Unsigned w) n :=
  ⟨⟨n % 2 ^ w, Nat.mod_lt _ (Nat.two_pow_pos w)⟩⟩

instance : Inhabited (Unsigned w) := ⟨0⟩

/-- The value `n` if it fits. -/
def ofNat? (n : ℕ) : Option (Unsigned w) :=
  if h : n < 2 ^ w then some ⟨n, h⟩ else none

/-- The `as` cast, which wraps. -/
def wrapping (n : ℕ) : Unsigned w := ⟨n % 2 ^ w, Nat.mod_lt _ (Nat.two_pow_pos w)⟩

def checkedAdd (a b : Unsigned w) : Option (Unsigned w) := ofNat? (a.val + b.val)

def checkedMul (a b : Unsigned w) : Option (Unsigned w) := ofNat? (a.val * b.val)

def checkedSub (a b : Unsigned w) : Option (Unsigned w) :=
  if b.val ≤ a.val then some ⟨a.val - b.val, Nat.lt_of_le_of_lt (Nat.sub_le _ _) a.isLt⟩
  else none

/-- Addition that stops at the largest value instead of overflowing. -/
def saturatingAdd (a b : Unsigned w) : Unsigned w :=
  ⟨min (a.val + b.val) (2 ^ w - 1), by
    have hp := Nat.two_pow_pos w
    omega⟩

def saturatingSub (a b : Unsigned w) : Unsigned w :=
  ⟨a.val - b.val, Nat.lt_of_le_of_lt (Nat.sub_le _ _) a.isLt⟩

variable {xs : List (Unsigned w)} {a b c : Unsigned w}

theorem foldl_saturatingAdd_val {acc : Unsigned w} (h : acc.val + (xs.map val).sum < 2 ^ w) :
    (xs.foldl saturatingAdd acc).val = acc.val + (xs.map val).sum := by
  induction xs generalizing acc with
  | nil => rfl
  | cons x xs ih =>
    rw [List.map_cons, List.sum_cons] at h ⊢
    have hfirst : (acc.saturatingAdd x).val = acc.val + x.val := min_eq_left (by omega)
    rw [List.foldl_cons, ih (by rw [hfirst]; omega), hfirst, Nat.add_assoc]

def checkedSum (xs : List (Unsigned w)) : Option (Unsigned w) :=
  xs.foldlM checkedAdd 0

theorem wrapping_val {n : ℕ} (h : n < 2 ^ w) : (wrapping n : Unsigned w).val = n :=
  Nat.mod_eq_of_lt h

@[simp] theorem wrapping_self (a : Unsigned w) : (wrapping a.val : Unsigned w) = a :=
  Unsigned.ext (wrapping_val a.isLt)

@[simp] theorem val_zero : (0 : Unsigned w).val = 0 := Nat.zero_mod _

theorem ofNat?_eq_some {n : ℕ} : ofNat? n = some a ↔ a.val = n := by
  unfold ofNat?
  constructor
  · intro h
    split_ifs at h with hn
    exact (congrArg val (Option.some.inj h)).symm
  · intro h
    subst h
    rw [dif_pos a.isLt]

theorem ofNat?_isSome {n : ℕ} : (∃ a : Unsigned w, ofNat? n = some a) ↔ n < 2 ^ w := by
  constructor
  · rintro ⟨a, ha⟩
    exact ofNat?_eq_some.mp ha ▸ a.isLt
  · intro h
    exact ⟨⟨n, h⟩, ofNat?_eq_some.mpr rfl⟩

theorem checkedAdd_eq_some : checkedAdd a b = some c ↔ c.val = a.val + b.val := ofNat?_eq_some

theorem checkedMul_eq_some : checkedMul a b = some c ↔ c.val = a.val * b.val := ofNat?_eq_some

theorem checkedSub_eq_some : checkedSub a b = some c ↔ a.val = b.val + c.val := by
  unfold checkedSub
  constructor
  · intro h
    split_ifs at h with hle
    have hc := congrArg val (Option.some.inj h)
    change a.val - b.val = c.val at hc
    omega
  · intro h
    rw [if_pos (by omega)]
    congr 1
    ext
    change a.val - b.val = c.val
    omega

private theorem foldlM_checkedAdd (xs : List (Unsigned w)) (acc s : Unsigned w) :
    xs.foldlM checkedAdd acc = some s ↔ s.val = acc.val + (xs.map val).sum := by
  induction xs generalizing acc with
  | nil =>
    simp only [List.foldlM_nil, List.map_nil, List.sum_nil, Nat.add_zero]
    exact ⟨fun h => (congrArg val (Option.some.inj h)).symm, fun h => by rw [Unsigned.ext h]; rfl⟩
  | cons x xs ih =>
    simp only [List.foldlM_cons, List.map_cons, List.sum_cons]
    constructor
    · intro h
      obtain ⟨mid, hmid, hrest⟩ := Option.bind_eq_some_iff.mp h
      rw [checkedAdd_eq_some] at hmid
      have := (ih mid).mp hrest
      omega
    · intro h
      -- The first partial sum is at most the whole sum, which fits.
      have hfit : acc.val + x.val < 2 ^ w := by
        have := s.isLt
        omega
      have hmid : checkedAdd acc x = some ⟨acc.val + x.val, hfit⟩ := checkedAdd_eq_some.mpr rfl
      rw [hmid]
      exact (ih _).mpr (by simp only; omega)

theorem checkedSum_eq_some {s : Unsigned w} : checkedSum xs = some s ↔ s.val = (xs.map val).sum := by
  unfold checkedSum
  rw [foldlM_checkedAdd, val_zero, Nat.zero_add]

theorem checkedSum_isSome (xs : List (Unsigned w)) :
    (∃ s, checkedSum xs = some s) ↔ (xs.map val).sum < 2 ^ w := by
  constructor
  · rintro ⟨s, hs⟩
    exact checkedSum_eq_some.mp hs ▸ s.isLt
  · intro h
    exact ⟨⟨_, h⟩, checkedSum_eq_some.mpr rfl⟩

end Unsigned

namespace Signed
variable {w : ℕ}

/-- The value `z` if it fits. -/
def ofInt? (z : ℤ) : Option (Signed w) :=
  if h : -2 ^ (w - 1) ≤ z ∧ z < 2 ^ (w - 1) then some ⟨z, h.1, h.2⟩ else none

instance instOfNat (n : ℕ) : OfNat (Signed w) n := ⟨(ofInt? n).getD ⟨0, by simp, by positivity⟩⟩

instance : Inhabited (Signed w) := ⟨0⟩

def checkedAdd (a b : Signed w) : Option (Signed w) := ofInt? (a.val + b.val)

def checkedSub (a b : Signed w) : Option (Signed w) := ofInt? (a.val - b.val)

def wrapping (z : ℤ) : Signed w :=
  ⟨(z + 2 ^ (w - 1)) % (2 * 2 ^ (w - 1)) - 2 ^ (w - 1), by
    have hpos : (0 : ℤ) < 2 ^ (w - 1) := by positivity
    have := Int.emod_nonneg (z + 2 ^ (w - 1)) (show (2 * 2 ^ (w - 1) : ℤ) ≠ 0 by omega)
    omega, by
    have hpos : (0 : ℤ) < 2 ^ (w - 1) := by positivity
    have := Int.emod_lt_of_pos (z + 2 ^ (w - 1)) (show (0 : ℤ) < 2 * 2 ^ (w - 1) by omega)
    omega⟩

@[simp] theorem val_zero : (0 : Signed w).val = 0 := by
  have hw : (0 : ℤ) < 2 ^ (w - 1) := by positivity
  change ((ofInt? ((0 : ℕ) : ℤ)).getD _).val = 0
  unfold ofInt?
  split <;> rfl

theorem ofInt?_eq_some {z : ℤ} {a : Signed w} : ofInt? z = some a ↔ a.val = z := by
  unfold ofInt?
  constructor
  · intro h
    split_ifs at h with hz
    exact (congrArg val (Option.some.inj h)).symm
  · intro h
    subst h
    rw [dif_pos ⟨a.lower, a.upper⟩]

theorem ofInt?_isSome {z : ℤ} :
    (∃ a : Signed w, ofInt? z = some a) ↔ -2 ^ (w - 1) ≤ z ∧ z < 2 ^ (w - 1) := by
  constructor
  · rintro ⟨a, ha⟩
    have hv := ofInt?_eq_some.mp ha
    exact hv ▸ ⟨a.lower, a.upper⟩
  · intro h
    exact ⟨⟨z, h.1, h.2⟩, ofInt?_eq_some.mpr rfl⟩

theorem checkedAdd_eq_some {a b c : Signed w} :
    checkedAdd a b = some c ↔ c.val = a.val + b.val := ofInt?_eq_some

theorem checkedSub_eq_some {a b c : Signed w} :
    checkedSub a b = some c ↔ c.val = a.val - b.val := ofInt?_eq_some

theorem wrapping_val {z : ℤ} (hlower : -2 ^ (w - 1) ≤ z) (hupper : z < 2 ^ (w - 1)) :
    (wrapping z : Signed w).val = z := by
  change (z + 2 ^ (w - 1)) % (2 * 2 ^ (w - 1)) - 2 ^ (w - 1) = z
  rw [Int.emod_eq_of_lt (by omega) (by omega)]
  omega

end Signed

end MachineInt
