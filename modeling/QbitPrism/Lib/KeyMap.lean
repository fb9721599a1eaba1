import Mathlib

/-!
# Finite maps

A map as its entries, no key twice. The order of the entries stands for the arbitrary iteration order
of a hash map, so only what does not depend on it is stated.
-/

structure KeyMap (κ α : Type*) where
  entries : List (κ × α)
  nodup : (entries.map Prod.fst).Nodup

namespace KeyMap
open List
variable {κ α : Type*}

def empty : KeyMap κ α := ⟨[], nodup_nil⟩

def keys (m : KeyMap κ α) : List κ := m.entries.map Prod.fst

def values (m : KeyMap κ α) : List α := m.entries.map Prod.snd

/-- Keep the entries that satisfy `p`. -/
def retain (m : KeyMap κ α) (p : κ → α → Bool) : KeyMap κ α where
  entries := m.entries.filter fun entry => p entry.1 entry.2
  nodup := m.nodup.sublist (filter_sublist.map Prod.fst)

def mapValues (m : KeyMap κ α) (f : α → α) : KeyMap κ α where
  entries := m.entries.map fun entry => (entry.1, f entry.2)
  nodup := by
    rw [map_map]
    exact m.nodup

variable {m : KeyMap κ α} {k : κ}

theorem mem_keys : k ∈ m.keys ↔ ∃ a, (k, a) ∈ m.entries := by
  simp [keys]

variable {a : α}

theorem mem_entries_retain {keep : κ → α → Bool} :
    (k, a) ∈ (m.retain keep).entries ↔ (k, a) ∈ m.entries ∧ keep k a = true := mem_filter

theorem keys_mapValues (m : KeyMap κ α) (f : α → α) : (m.mapValues f).keys = m.keys := map_map

theorem values_mapValues (m : KeyMap κ α) (f : α → α) : (m.mapValues f).values = m.values.map f := by
  simp [values, mapValues]

theorem mem_entries_mapValues {f : α → α} {b : α} :
    (k, b) ∈ (m.mapValues f).entries ↔ ∃ a, (k, a) ∈ m.entries ∧ f a = b := by
  simp [mapValues]

/-- How many values satisfy `p`. -/
def countValues (m : KeyMap κ α) (p : α → Bool) : ℕ := m.values.countP p

theorem countValues_eq (m : KeyMap κ α) (p : α → Bool) :
    m.countValues p = m.entries.countP fun entry => p entry.2 := countP_map ..

theorem values_retain_sublist (m : KeyMap κ α) (keep : κ → α → Bool) :
    (m.retain keep).values.Sublist m.values :=
  filter_sublist.map Prod.snd

theorem countValues_retain_le (m : KeyMap κ α) (keep : κ → α → Bool) (p : α → Bool) :
    (m.retain keep).countValues p ≤ m.countValues p :=
  (m.values_retain_sublist keep).countP_le

variable [DecidableEq κ]

def get (m : KeyMap κ α) (k : κ) : Option α := (m.entries.find? fun entry => entry.1 = k).map Prod.snd

def erase (m : KeyMap κ α) (k : κ) : KeyMap κ α := m.retain fun key _ => key ≠ k

variable {key : κ}

theorem mem_entries_erase : (key, a) ∈ (m.erase k).entries ↔ (key, a) ∈ m.entries ∧ key ≠ k := by
  simp [erase, retain]

theorem not_mem_keys_erase (m : KeyMap κ α) (k : κ) : k ∉ (m.erase k).keys := by
  simp [mem_keys, mem_entries_erase]

/-- The value under `k` is replaced, or added. -/
def insert (m : KeyMap κ α) (k : κ) (a : α) : KeyMap κ α where
  entries := (k, a) :: (m.erase k).entries
  nodup := nodup_cons.mpr ⟨m.not_mem_keys_erase k, (m.erase k).nodup⟩

theorem get_eq_some : m.get k = some a ↔ (k, a) ∈ m.entries := by
  obtain ⟨entries, hnodup⟩ := m
  unfold get
  dsimp only
  induction entries with
  | nil => simp
  | cons entry entries ih =>
    obtain ⟨key, value⟩ := entry
    rw [map_cons, nodup_cons] at hnodup
    rw [List.find?_cons]
    by_cases hkey : key = k
    · subst hkey
      simp only [decide_true, Option.map_some, Option.some.injEq, mem_cons, Prod.mk.injEq, true_and]
      refine ⟨fun h => .inl h.symm, fun h => (h.resolve_right fun hmem => ?_).symm⟩
      exact hnodup.1 (mem_map.mpr ⟨_, hmem, rfl⟩)
    · simp [hkey, ih hnodup.2, Ne.symm hkey]

theorem get_erase_of_ne (h : key ≠ k) : (m.erase k).get key = m.get key := by
  ext a
  rw [get_eq_some, get_eq_some, mem_entries_erase]
  exact and_iff_left h

theorem mem_entries_insert {value : α} :
    (key, value) ∈ (m.insert k a).entries ↔ key = k ∧ value = a ∨ (key, value) ∈ m.entries ∧ key ≠ k := by
  simp [insert, mem_entries_erase]

theorem countValues_erase {p : α → Bool} (hget : m.get k = some a) (hp : p a = true) :
    (m.erase k).countValues p + 1 = m.countValues p := by
  rw [get_eq_some] at hget
  rw [countValues_eq, countValues_eq]
  obtain ⟨front, rest, hsplit⟩ := append_of_mem hget
  have hnodup := m.nodup
  rw [hsplit, map_append, map_cons, nodup_middle, nodup_cons, mem_append] at hnodup
  have hkept : ∀ part : List (κ × α), k ∉ part.map Prod.fst →
      part.filter (fun entry => decide (entry.1 ≠ k)) = part := by
    intro part hpart
    refine filter_eq_self.mpr fun entry hentry => decide_eq_true fun hk => hpart ?_
    exact mem_map.mpr ⟨entry, hentry, hk⟩
  have herased : (m.erase k).entries = front ++ rest := by
    rw [erase, retain]
    dsimp only
    rw [hsplit, filter_append, filter_cons_of_neg (by simp), hkept front (fun h => hnodup.1 (.inl h)),
      hkept rest (fun h => hnodup.1 (.inr h))]
  rw [herased, hsplit, countP_append, countP_append, countP_cons_of_pos (p := fun entry : κ × α => p entry.2) hp]
  omega

end KeyMap
