import Mathlib

/-!
# Records as objects of named fields

A value is an object of named fields or something nothing looks into. A codec writes values of
a type and reads them back; a record is written field by field, with fields left out at their
default, and read by key.
-/
namespace Fields

inductive Value (L : Type*) where
  | leaf (l : L)
  | object (fields : List (String × Value L))

abbrev Object (L : Type*) := List (String × Value L)

variable {key other : String}

namespace Object

variable {L : Type*}

def get? (o : Object L) (key : String) : Option (Value L) := o.lookup key

def remove (o : Object L) (key : String) : Object L := o.filter fun field => field.1 ≠ key

def insert (o : Object L) (key : String) (v : Value L) : Object L := o.remove key ++ [(key, v)]

@[simp] theorem get?_nil (key : String) : get? ([] : Object L) key = none := rfl

theorem get?_cons (o : Object L) (key other : String) (v : Value L) :
    get? ((other, v) :: o) key = if key = other then some v else get? o key := by
  by_cases h : key = other
  · subst h
    simp [get?]
  · have hbeq : (key == other) = false := beq_false_of_ne h
    simp [get?, List.lookup_cons, hbeq, h]

@[simp] theorem get?_cons_self (o : Object L) (key : String) (v : Value L) :
    get? ((key, v) :: o) key = some v := by
  rw [get?_cons, if_pos rfl]

theorem get?_cons_of_ne (h : key ≠ other) (o : Object L) (v : Value L) : get? ((other, v) :: o) key = get? o key := by
  rw [get?_cons, if_neg h]

theorem get?_append (o more : Object L) (key : String) :
    get? (o ++ more) key = (get? o key).or (get? more key) := by
  induction o with
  | nil => simp
  | cons field o ih =>
    obtain ⟨other, v⟩ := field
    by_cases h : key = other
    · subst h
      simp
    · rw [List.cons_append, get?_cons_of_ne h, get?_cons_of_ne h, ih]

theorem get?_remove_of_ne (h : key ≠ other) (o : Object L) : get? (o.remove other) key = get? o key := by
  induction o with
  | nil => rfl
  | cons field o ih =>
    obtain ⟨name, v⟩ := field
    by_cases hname : name = other
    · subst hname
      rw [get?_cons_of_ne h, ← ih, remove, remove, List.filter_cons_of_neg (by simp)]
    · rw [remove, List.filter_cons_of_pos (by simpa using hname)]
      by_cases hkey : key = name
      · subst hkey
        simp
      · rw [get?_cons_of_ne hkey, get?_cons_of_ne hkey]
        exact ih

@[simp] theorem get?_remove_self (o : Object L) (key : String) : get? (o.remove key) key = none := by
  induction o with
  | nil => rfl
  | cons field o ih =>
    obtain ⟨name, v⟩ := field
    by_cases hname : name = key
    · subst hname
      rwa [remove, List.filter_cons_of_neg (by simp)]
    · rw [remove, List.filter_cons_of_pos (by simpa using hname), get?_cons_of_ne (Ne.symm hname)]
      exact ih

@[simp] theorem get?_insert_self (o : Object L) (key : String) (v : Value L) :
    get? (o.insert key v) key = some v := by
  simp [insert, get?_append]

theorem get?_insert_of_ne (h : key ≠ other) (o : Object L) (v : Value L) :
    get? (o.insert other v) key = get? o key := by
  rw [insert, get?_append, get?_remove_of_ne h, get?_cons_of_ne h, get?_nil, Option.or_none]

end Object

/-- How values of a type are written and read. What is written reads back. -/
structure Codec (L α : Type*) where
  toValue : α → Value L
  fromValue : Value L → Except String α
  fromValue_toValue : ∀ a, fromValue (toValue a) = .ok a

namespace Codec

variable {L α : Type*} (c : Codec L α)

def field (key : String) (o : Object L) : Except String α :=
  match o.get? key with
  | some v => c.fromValue v
  | none => .error ("missing field " ++ key)

def fieldOr (default : α) (key : String) (o : Object L) : Except String α :=
  match o.get? key with
  | some v => c.fromValue v
  | none => .ok default

def skipped [DecidableEq α] (default : α) (key : String) (a : α) : Object L :=
  if a = default then [] else [(key, c.toValue a)]

variable {c}

variable {a default : α}

theorem field_of_get? {o : Object L} (h : o.get? key = some (c.toValue a)) : c.field key o = .ok a := by
  rw [field, h]
  exact c.fromValue_toValue a

theorem fieldOr_of_get? [DecidableEq α] {o : Object L} (h : o.get? key = (c.skipped default key a).get? key) :
    c.fieldOr default key o = .ok a := by
  rw [fieldOr, h, skipped]
  split_ifs with hdefault
  · rw [hdefault]
    rfl
  · rw [Object.get?_cons_self]
    exact c.fromValue_toValue a

theorem skipped_key [DecidableEq α] {field : String × Value L} (h : field ∈ c.skipped default key a) :
    field.1 = key := by
  rw [skipped] at h
  split_ifs at h
  · cases h
  · rw [List.mem_singleton.mp h]

theorem skipped_get?_of_ne [DecidableEq α] (h : key ≠ other) : (c.skipped default other a).get? key = none := by
  rw [skipped]
  split_ifs
  · rfl
  · rw [Object.get?_cons_of_ne h, Object.get?_nil]

end Codec

end Fields
