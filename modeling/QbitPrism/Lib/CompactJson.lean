import Mathlib

/-!
# Compact JSON

The bytes a compact JSON writer puts around the values of an array or an object, which are
themselves given as bytes.
-/
namespace CompactJson
open List

def comma : UInt8 := 0x2c
def colon : UInt8 := 0x3a

def separated : List (List UInt8) → List UInt8
  | [] => []
  | [part] => part
  | part :: rest => part ++ comma :: separated rest

def led (parts : List (List UInt8)) : List UInt8 := parts.flatMap fun part => comma :: part

@[simp] theorem led_nil : led [] = [] := rfl

@[simp] theorem led_cons (part : List UInt8) (rest : List (List UInt8)) :
    led (part :: rest) = comma :: (part ++ led rest) := rfl

theorem led_append (parts more : List (List UInt8)) : led (parts ++ more) = led parts ++ led more :=
  flatMap_append

theorem separated_cons (part : List UInt8) (rest : List (List UInt8)) :
    separated (part :: rest) = part ++ led rest := by
  induction rest generalizing part with
  | nil => simp [separated]
  | cons next rest ih =>
    rw [separated, ih next, led_cons]
    simp

theorem comma_separated {parts : List (List UInt8)} (h : parts ≠ []) :
    comma :: separated parts = led parts := by
  cases parts with
  | nil => exact absurd rfl h
  | cons part rest => rw [separated_cons, led_cons]

theorem separated_append {parts : List (List UInt8)} (h : parts ≠ []) (more : List (List UInt8)) :
    separated (parts ++ more) = separated parts ++ led more := by
  cases parts with
  | nil => exact absurd rfl h
  | cons part rest =>
    rw [cons_append, separated_cons, separated_cons, led_append, append_assoc]

def array (items : List (List UInt8)) : List UInt8 := 0x5b :: (separated items ++ [0x5d])

section Objects
variable (quote : String → List UInt8)

def field (entry : String × List UInt8) : List UInt8 := quote entry.1 ++ colon :: entry.2

def object (fields : List (String × List UInt8)) : List UInt8 :=
  0x7b :: (separated (fields.map (field quote)) ++ [0x7d])

theorem object_split (fields rest : List (String × List UInt8)) (h : fields ≠ []) :
    object quote (fields ++ rest) =
      (0x7b :: separated (fields.map (field quote))) ++ (led (rest.map (field quote)) ++ [0x7d]) := by
  rw [object, map_append, separated_append (by simpa using h)]
  simp

end Objects

/-- One piece of a sequence: its items, with a comma before each but the very first. -/
def piece (index : ℕ) (items : List (List UInt8)) : List UInt8 :=
  items.zipIdx.flatMap fun entry => (if 0 < entry.2 ∨ 0 < index then [comma] else []) ++ entry.1

theorem piece_of_pos {index : ℕ} (h : 0 < index) (items : List (List UInt8)) :
    piece index items = led items := by
  have hitems : items = items.zipIdx.map Prod.fst := by simp
  rw [piece, led]
  conv_rhs => rw [hitems, flatMap_map]
  simp [h]

theorem flatMap_zipIdx_of_pos (items : List (List UInt8)) {start : ℕ} (h : 0 < start) :
    ((items.zipIdx start).flatMap fun entry => (if 0 < entry.2 ∨ 0 < 0 then [comma] else []) ++ entry.1) =
      led items := by
  induction items generalizing start with
  | nil => rfl
  | cons item rest ih =>
    rw [zipIdx_cons, flatMap_cons, ih (Nat.succ_pos start), led_cons]
    simp [h]

theorem piece_zero (items : List (List UInt8)) : piece 0 items = separated items := by
  cases items with
  | nil => rfl
  | cons item rest =>
    rw [piece, zipIdx_cons, flatMap_cons, flatMap_zipIdx_of_pos rest Nat.one_pos, separated_cons]
    simp

def slice (items : List (List UInt8)) (length index : ℕ) : List (List UInt8) :=
  (items.drop (index * length)).take length

theorem flatMap_slice (items : List (List UInt8)) (length count : ℕ) :
    (List.range count).flatMap (slice items length) = items.take (count * length) := by
  induction count with
  | zero => simp
  | succ count ih =>
    rw [range_succ, flatMap_append, ih, flatMap_singleton, slice, Nat.succ_mul, take_add]

theorem flatMap_piece {items : List (List UInt8)} {length count : ℕ} (hlength : 0 < length)
    (hitems : items ≠ []) (hcover : items.length ≤ count * length) :
    ((List.range count).flatMap fun index => piece index (slice items length index)) = separated items := by
  cases count with
  | zero => exact absurd (length_eq_zero_iff.mp (by omega)) hitems
  | succ count =>
    have hfirst : slice items length 0 ≠ [] := by
      rw [slice, Nat.zero_mul, drop_zero]
      intro hnil
      have := congrArg List.length hnil
      rw [length_take, length_nil] at this
      have := length_pos_iff.mpr hitems
      omega
    have hlater : ∀ indices : List ℕ, (∀ index ∈ indices, 0 < index) →
        (indices.flatMap fun index => piece index (slice items length index)) =
          led (indices.flatMap (slice items length)) := by
      intro indices hpos
      induction indices with
      | nil => rfl
      | cons index indices ih =>
        rw [flatMap_cons, flatMap_cons, led_append, piece_of_pos (hpos index mem_cons_self), ih fun other hother =>
          hpos other (mem_cons_of_mem _ hother)]
    have hrange : List.range (count + 1) = 0 :: (List.range count).map Nat.succ :=
      range_succ_eq_map
    have hall := flatMap_slice items length (count + 1)
    rw [take_of_length_le hcover, hrange, flatMap_cons] at hall
    rw [hrange, flatMap_cons, piece_zero, hlater _ (by simp), ← separated_append hfirst, hall]

end CompactJson
