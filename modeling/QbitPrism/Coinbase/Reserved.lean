import Mathlib
import QbitPrism.Tx.Serialize

/-!
# The reserved value of a landed coinbase

`coinbase_witness_reserved_value` of `candidates.rs` walks a coinbase by offsets. The lengths it
reads are added to the offset without a check, so a long one takes the walk back. As long as no
addition wraps, the walk accepts exactly the witness transactions with one input and the reserved
value alone on its stack.
-/
namespace QbitPrism
open MachineInt Checked ByteReader List

/-- A value of `size` bytes, which no shorter form holds. -/
def wideCompactSize (size least : ℕ) (rest : List UInt8) : Except String (ℕ × ℕ) :=
  if rest.length < size then .error "truncated compact size"
  else if ofLeBytes (rest.take size) < least then .error "non-canonical compact size"
  else .ok (ofLeBytes (rest.take size), size + 1)

/-- `compact_size` of `blocks.rs`: the value and the bytes it takes. -/
def decodeCompactSize : List UInt8 → Except String (ℕ × ℕ)
  | [] => .error "truncated compact size"
  | tag :: rest =>
    if tag.toNat ≤ 252 then .ok (tag.toNat, 1)
    else if tag = 253 then wideCompactSize 2 253 rest
    else if tag = 254 then wideCompactSize 4 65536 rest
    else wideCompactSize 8 4294967296 rest

/-- Where the walk is, how often it read, and whether an addition to the offset wrapped. -/
structure WalkState where
  offset : ℕ
  reads : ℕ
  wrapped : Bool

/-- A walk that fails still says how far it came. -/
abbrev Walk (α : Type) := ExceptT String (StateM WalkState) α

namespace Walk

variable (tx : List UInt8)

/-- `at(offset, len)` -/
def part (offset len : ℕ) : Walk (Bytes len) := fun s =>
  (if 2 ^ 64 ≤ offset + len then .error "coinbase length overflow"
    else if h : offset + len ≤ tx.length then
      .ok ⟨(tx.drop offset).take len, by rw [length_take, length_drop]; omega⟩
    else .error "truncated coinbase transaction",
    { s with reads := s.reads + 1 })

/-- `count(offset)` -/
def count : Walk (ℕ × ℕ) := fun s =>
  (if s.offset ≤ tx.length then decodeCompactSize (tx.drop s.offset)
    else .error "truncated coinbase transaction",
    { s with reads := s.reads + 1 })

/-- `offset += n`, which wraps. -/
def advance (n : ℕ) : Walk Unit := fun s =>
  (.ok (), { s with
    offset := (s.offset + n) % 2 ^ 64
    wrapped := s.wrapped || decide (2 ^ 64 ≤ s.offset + n) })

def ensure (condition : Prop) [Decidable condition] (error : String) : Walk Unit := fun s =>
  (if condition then .ok () else .error error, s)

def offset : Walk ℕ := fun s => (.ok s.offset, s)

def sized (extra : ℕ → ℕ) : Walk ℕ := do
  let (value, len) ← count tx
  advance (len + extra value)
  pure value

def outputs : ℕ → Walk Unit
  | 0 => pure ()
  | left + 1 => do
    advance 8
    let _ ← sized tx fun script => script
    outputs left

def reserved : Walk (Bytes 32) := do
  let items ← sized tx fun _ => 0
  ensure (items = 1) "coinbase witness must hold exactly the reserved value"
  let size ← sized tx fun _ => 0
  ensure (size = 32) "coinbase witness reserved value must be 32 bytes"
  let start ← offset
  let value ← part tx start 32
  advance (32 + 4)
  let last ← offset
  ensure (last = tx.length) "landed coinbase has trailing bytes"
  pure value

def body : Walk (Bytes 32) := do
  let inputs ← sized tx fun _ => 0
  ensure (inputs = 1) "coinbase must have exactly one input"
  advance 36
  let _ ← sized tx fun script => script + 4
  let count ← sized tx fun _ => 0
  outputs tx count
  reserved tx

def coinbase : Walk (Bytes 32) := do
  let marker ← part tx 4 2
  ensure (marker.toList = [0, 1]) "landed coinbase is not a witness transaction"
  body tx

def run : Except String (Bytes 32) × WalkState := coinbase tx { offset := 6, reads := 0, wrapped := false }

end Walk

def coinbaseWitnessReservedValue (tx : List UInt8) : Except String (Bytes 32) := (Walk.run tx).1

/-- The canonical bytes of a witness transaction with one input, whose stack is `value` alone. -/
def IsWitnessCoinbase (tx : List UInt8) (value : Bytes 32) : Prop :=
  ∃ version input outputs lockTime, input.witnessStack = [value.toList] ∧
    tx = serializeWithWitness version [input] outputs lockTime

theorem wideCompactSize_eq_ok {size least value len : ℕ} {rest : List UInt8}
    (h : wideCompactSize size least rest = .ok (value, len)) :
    least ≤ value ∧ value < 256 ^ size ∧ len = size + 1 ∧ rest = leBytes size value ++ rest.drop size := by
  unfold wideCompactSize at h
  split_ifs at h with htruncated hleast
  cases h
  have hlen : (rest.take size).length = size := length_take_of_le (not_lt.mp htruncated)
  have hraw := leBytes_ofLeBytes (rest.take size)
  have hlt := ofLeBytes_lt (rest.take size)
  rw [hlen] at hraw hlt
  refine ⟨not_lt.mp hleast, hlt, rfl, ?_⟩
  rw [hraw, take_append_drop]

theorem wideCompactSize_leBytes {size least value : ℕ} (hleast : least ≤ value) (hlt : value < 256 ^ size)
    (rest : List UInt8) : wideCompactSize size least (leBytes size value ++ rest) = .ok (value, size + 1) := by
  have htake : (leBytes size value ++ rest).take size = leBytes size value :=
    take_left' (length_leBytes size value)
  rw [wideCompactSize, htake, ofLeBytes_leBytes hlt, if_neg (by rw [length_append, length_leBytes]; omega),
    if_neg (not_lt.mpr hleast)]

theorem decodeCompactSize_eq_ok {bytes : List UInt8} {value len : ℕ}
    (h : decodeCompactSize bytes = .ok (value, len)) :
    value < 2 ^ 64 ∧ len = (compactSize value).length ∧ ∃ rest, bytes = compactSize value ++ rest := by
  cases bytes with
  | nil => cases h
  | cons tag rest =>
    have htag := tag.toNat_lt
    simp only [decodeCompactSize] at h
    split_ifs at h with hshort hmid hlong
    · cases h
      have hwrite : compactSize tag.toNat = [tag] := by
        rw [compactSize, if_pos (by omega), UInt8.ofNat_toNat]
      rw [hwrite]
      exact ⟨by omega, rfl, rest, rfl⟩
    · obtain ⟨hleast, hlt, rfl, hrest⟩ := wideCompactSize_eq_ok h
      have hwrite : compactSize value = 253 :: leBytes 2 value := by
        rw [compactSize, if_neg (by omega), if_pos (by norm_num at hlt; omega)]
      rw [hwrite, hmid]
      exact ⟨by norm_num at hlt; omega, by simp, rest.drop 2, congrArg _ hrest⟩
    · obtain ⟨hleast, hlt, rfl, hrest⟩ := wideCompactSize_eq_ok h
      have hwrite : compactSize value = 254 :: leBytes 4 value := by
        rw [compactSize, if_neg (by omega), if_neg (by omega), if_pos (by norm_num at hlt; omega)]
      rw [hwrite, hlong]
      exact ⟨by norm_num at hlt; omega, by simp, rest.drop 4, congrArg _ hrest⟩
    · obtain ⟨hleast, hlt, rfl, hrest⟩ := wideCompactSize_eq_ok h
      have hlast : tag = 255 := by
        rw [← UInt8.toNat_inj] at hmid hlong ⊢
        simp at hmid hlong ⊢
        omega
      have hwrite : compactSize value = 255 :: leBytes 8 value := by
        rw [compactSize, if_neg (by omega), if_neg (by omega), if_neg (by omega)]
      rw [hwrite, hlast]
      exact ⟨by norm_num at hlt; omega, by simp, rest.drop 8, congrArg _ hrest⟩

theorem decodeCompactSize_compactSize {value : ℕ} (h : value < 2 ^ 64) (rest : List UInt8) :
    decodeCompactSize (compactSize value ++ rest) = .ok (value, (compactSize value).length) := by
  unfold compactSize
  split_ifs with hshort hmid hlong
  · have hbyte : (UInt8.ofNat value).toNat = value :=
      UInt8.toNat_ofNat_of_lt (by simp [UInt8.size]; omega)
    rw [singleton_append, decodeCompactSize, hbyte, if_pos (by omega)]
    rfl
  · rw [cons_append, decodeCompactSize, if_neg (by decide), if_pos rfl, length_cons, length_leBytes]
    exact wideCompactSize_leBytes (by omega) (by norm_num; omega) rest
  · rw [cons_append, decodeCompactSize, if_neg (by decide), if_neg (by decide), if_pos rfl,
      length_cons, length_leBytes]
    exact wideCompactSize_leBytes (by omega) (by norm_num; omega) rest
  · rw [cons_append, decodeCompactSize, if_neg (by decide), if_neg (by decide), if_neg (by decide),
      length_cons, length_leBytes]
    exact wideCompactSize_leBytes (by omega) (by norm_num; omega) rest

namespace Walk

variable {α β : Type} {tx : List UInt8}

theorem bind_apply (m : Walk α) (f : α → Walk β) (s : WalkState) :
    (m >>= f) s = match m s with
      | (.ok x, t) => f x t
      | (.error e, t) => (.error e, t) := by
  change (match m s with | (r, t) => ExceptT.bindCont f r t) = _
  rcases m s with ⟨_ | x, t⟩
  · rfl
  · rfl

variable {m : Walk α} {f : α → Walk β} {s t : WalkState} {extra : ℕ → ℕ} {n : ℕ} {P Q : List UInt8 → Prop}
  {enc : List UInt8} {value : Bytes 32} {written : List ParsedTxOut}

theorem bind_eq_ok {y : β} : (m >>= f) s = (.ok y, t) ↔ ∃ x u, m s = (.ok x, u) ∧ f x u = (.ok y, t) := by
  rw [bind_apply]
  rcases m s with ⟨_ | x, u⟩
  · constructor
    · intro h
      cases h
    · rintro ⟨_, _, ⟨⟩, _⟩
  · constructor
    · intro h
      exact ⟨x, u, rfl, h⟩
    · rintro ⟨_, _, ⟨⟩, h⟩
      exact h

theorem bind_of_ok {x : α} (h : m s = (.ok x, t)) : (m >>= f) s = f x t := by
  rw [bind_apply, h]

/-- Without wrapping, at most `n` reads; a wrap is never forgotten. -/
def Metered (m : Walk α) (n : ℕ) : Prop :=
  ∀ s, (m s).2.wrapped = false → s.wrapped = false ∧ (m s).2.reads ≤ s.reads + n

namespace Metered

theorem bind {a b : ℕ} (hm : Metered m a) (hf : ∀ x, Metered (f x) b) : Metered (m >>= f) (a + b) := by
  intro s h
  rw [bind_apply] at h ⊢
  have hfirst := hm s
  rcases hrun : m s with ⟨_ | x, t⟩
  · rw [hrun] at h hfirst
    obtain ⟨hs, hreads⟩ := hfirst h
    exact ⟨hs, hreads.trans (by omega)⟩
  · rw [hrun] at h hfirst
    obtain ⟨ht, hmore⟩ := hf x t h
    obtain ⟨hs, hreads⟩ := hfirst ht
    exact ⟨hs, hmore.trans (by simp only at hreads; omega)⟩

theorem pure (x : α) : Metered (Pure.pure x : Walk α) 0 := fun _ h => ⟨h, le_rfl⟩

theorem part (offset len : ℕ) : Metered (Walk.part tx offset len) 1 := fun _ h => ⟨h, le_rfl⟩

theorem count : Metered (Walk.count tx) 1 := fun _ h => ⟨h, le_rfl⟩

theorem offset : Metered Walk.offset 0 := fun _ h => ⟨h, le_rfl⟩

theorem ensure (condition : Prop) [Decidable condition] (error : String) :
    Metered (Walk.ensure condition error) 0 := fun _ h => ⟨h, le_rfl⟩

theorem advance (n : ℕ) : Metered (Walk.advance n) 0 :=
  fun _ h => ⟨(Bool.or_eq_false_iff.mp h).1, le_rfl⟩

theorem sized (extra : ℕ → ℕ) : Metered (Walk.sized tx extra) 1 :=
  count.bind fun _ => (advance _).bind fun _ => pure _

theorem reserved : Metered (Walk.reserved tx) 3 :=
  (sized _).bind fun _ => (ensure _ _).bind fun _ => (sized _).bind fun _ => (ensure _ _).bind fun _ =>
    offset.bind fun _ => (part _ _).bind fun _ => (advance _).bind fun _ => offset.bind fun _ =>
      (ensure _ _).bind fun _ => pure _

end Metered

theorem sized_eq_ok {value : ℕ} (h : sized tx extra s = (.ok value, t)) (ht : t.wrapped = false) :
    s.wrapped = false ∧ value < 2 ^ 64 ∧ t.offset = s.offset + (compactSize value).length + extra value ∧
      s.offset ≤ tx.length ∧ ∃ rest, tx.drop s.offset = compactSize value ++ rest := by
  simp only [sized, bind_eq_ok] at h
  obtain ⟨⟨read, len⟩, u, hcount, _, v, hadvance, hpure⟩ := h
  obtain ⟨hvalue, rfl⟩ := Prod.mk.inj hpure
  obtain rfl : read = value := Except.ok.inj hvalue
  simp only [count] at hcount
  split_ifs at hcount with hinside
  swap
  · cases (Prod.mk.inj hcount).1
  obtain ⟨hdecode, rfl⟩ := Prod.mk.inj hcount
  obtain ⟨hlt, rfl, hrest⟩ := decodeCompactSize_eq_ok hdecode
  obtain ⟨-, rfl⟩ := Prod.mk.inj hadvance
  obtain ⟨hs, hfits⟩ := Bool.or_eq_false_iff.mp ht
  refine ⟨hs, hlt, ?_, hinside, hrest⟩
  have hsmall : ¬ 2 ^ 64 ≤ s.offset + ((compactSize read).length + extra read) := of_decide_eq_false hfits
  show (s.offset + ((compactSize read).length + extra read)) % 2 ^ 64 = _
  rw [Nat.mod_eq_of_lt (by omega), Nat.add_assoc]

theorem advance_eq_ok (h : advance n s = (.ok (), t)) (ht : t.wrapped = false) :
    s.wrapped = false ∧ t.offset = s.offset + n ∧ t.reads = s.reads := by
  obtain ⟨-, rfl⟩ := Prod.mk.inj h
  obtain ⟨hs, hfits⟩ := Bool.or_eq_false_iff.mp ht
  have hsmall := of_decide_eq_false hfits
  exact ⟨hs, Nat.mod_eq_of_lt (by omega), rfl⟩

theorem outputs_metered {left : ℕ} (h : (outputs tx left s).2.wrapped = false) :
    s.wrapped = false ∧ (outputs tx left s).2.reads ≤ s.reads + (tx.length - s.offset) + 1 := by
  induction left generalizing s with
  | zero => exact ⟨h, by show s.reads ≤ _; omega⟩
  | succ left ih =>
    rw [outputs, bind_apply, advance] at h ⊢
    simp only [bind_apply] at h ⊢
    generalize hs : ({ s with offset := (s.offset + 8) % 2 ^ 64, wrapped := _ } : WalkState) = u at h ⊢
    have hadvance : advance 8 s = (.ok (), u) := by rw [← hs]; rfl
    have hsized : (sized tx (fun script => script) u).2.wrapped = false → _ :=
      Metered.sized (fun script => script) u
    rcases hrun : sized tx (fun script => script) u with ⟨_ | script, t⟩
    · rw [hrun] at h hsized
      obtain ⟨hu, hreads⟩ := hsized h
      obtain ⟨hbefore, -, hsame⟩ := advance_eq_ok hadvance hu
      exact ⟨hbefore, hreads.trans (by omega)⟩
    · rw [hrun] at h hsized
      obtain ⟨ht, hlater⟩ := ih h
      obtain ⟨hu, -, hnext, hinside, rest, hrest⟩ := sized_eq_ok hrun ht
      obtain ⟨hbefore, hoffset, hsame⟩ := advance_eq_ok hadvance hu
      have hreads := (hsized ht).2
      have hlen := congrArg List.length hrest
      have hpos := length_pos_iff.mpr (compactSize_ne_nil script)
      rw [length_drop, length_append] at hlen
      exact ⟨hbefore, hlater.trans (by simp only at hreads; omega)⟩

theorem coinbase_metered (h : (coinbase tx s).2.wrapped = false) :
    (coinbase tx s).2.reads ≤ s.reads + (tx.length + 8) := by
  have houtputs : ∀ left, Metered (outputs tx left) (tx.length + 1) := by
    intro left s hs
    obtain ⟨hbefore, hreads⟩ := outputs_metered hs
    exact ⟨hbefore, hreads.trans (by omega)⟩
  have hall : Metered (coinbase tx) (1 + (0 + (1 + (0 + (0 + (1 + (1 + (tx.length + 1 + 3)))))))) :=
    (Metered.part _ _).bind fun _ => (Metered.ensure _ _).bind fun _ => (Metered.sized _).bind fun _ =>
      (Metered.ensure _ _).bind fun _ => (Metered.advance _).bind fun _ => (Metered.sized _).bind fun _ =>
        (Metered.sized _).bind fun _ => (houtputs _).bind fun _ => Metered.reserved
  exact (hall s h).2.trans (by omega)

/-- Between two states the walk moved over bytes that `Encodes` describes, if it is still inside. -/
structure Moves (tx : List UInt8) (s t : WalkState) (Encodes : List UInt8 → Prop) : Prop where
  unwrapped : s.wrapped = false
  le : s.offset ≤ t.offset
  bytes : t.offset ≤ tx.length → ∃ enc, Encodes enc ∧ tx.drop s.offset = enc ++ tx.drop t.offset

theorem Moves.trans {u : WalkState} {R : List UInt8 → Prop} (hfirst : Moves tx s t P) (hsecond : Moves tx t u Q)
    (hjoin : ∀ a b, P a → Q b → R (a ++ b)) : Moves tx s u R where
  unwrapped := hfirst.unwrapped
  le := hfirst.le.trans hsecond.le
  bytes hinside := by
    obtain ⟨b, hb, hlater⟩ := hsecond.bytes hinside
    obtain ⟨a, ha, hearlier⟩ := hfirst.bytes (hsecond.le.trans hinside)
    exact ⟨a ++ b, hjoin a b ha hb, by rw [hearlier, hlater, append_assoc]⟩

theorem Moves.join {u : WalkState} (hfirst : Moves tx s t P) (hsecond : Moves tx t u Q) :
    Moves tx s u fun enc => ∃ a b, P a ∧ Q b ∧ enc = a ++ b :=
  hfirst.trans hsecond fun a b ha hb => ⟨a, b, ha, hb, rfl⟩

theorem moves_advance (h : advance n s = (.ok (), t)) (ht : t.wrapped = false) :
    Moves tx s t fun enc => enc.length = n := by
  obtain ⟨hs, hoffset, -⟩ := advance_eq_ok h ht
  refine ⟨hs, by omega, fun hinside => ⟨(tx.drop s.offset).take n, ?_, ?_⟩⟩
  · rw [length_take, length_drop]
    omega
  · rw [hoffset, ← drop_drop, take_append_drop]

/-- A compact size and as many bytes as it and `extra` say. -/
def SizedBytes (extra : ℕ → ℕ) (value : ℕ) (enc : List UInt8) : Prop :=
  ∃ body, enc = compactSize value ++ body ∧ body.length = extra value

theorem SizedBytes.eq_compactSize {value : ℕ} (h : SizedBytes (fun _ => 0) value enc) : enc = compactSize value := by
  obtain ⟨body, rfl, hbody⟩ := h
  rw [length_eq_zero_iff.mp hbody, append_nil]

theorem moves_sized {value : ℕ} (h : sized tx extra s = (.ok value, t)) (ht : t.wrapped = false) :
    Moves tx s t (SizedBytes extra value) := by
  obtain ⟨hs, -, hoffset, hin, rest, hrest⟩ := sized_eq_ok h ht
  refine ⟨hs, by omega, fun hinside => ⟨compactSize value ++ rest.take (extra value), ⟨_, rfl, ?_⟩, ?_⟩⟩
  · have hlen := congrArg List.length hrest
    rw [length_drop, length_append] at hlen
    rw [length_take]
    omega
  · rw [hoffset, Nat.add_assoc, ← drop_drop, hrest, append_assoc, drop_append,
      Nat.add_sub_cancel_left, drop_eq_nil_of_le (by omega), nil_append, take_append_drop]

theorem exists_unsigned {w : ℕ} (hwidth : 256 ^ n = 2 ^ w) {bytes : List UInt8} (hlen : bytes.length = n) :
    ∃ value : Unsigned w, leBytes n value.val = bytes := by
  have hlt := ofLeBytes_lt bytes
  rw [hlen, hwidth] at hlt
  exact ⟨⟨ofLeBytes bytes, hlt⟩, by rw [← hlen, leBytes_ofLeBytes]⟩

theorem ensure_eq_ok {condition : Prop} [Decidable condition] {error : String} {u : Unit}
    (h : ensure condition error s = (.ok u, t)) : condition ∧ t = s := by
  obtain ⟨hok, rfl⟩ := Prod.mk.inj h
  split_ifs at hok with hcondition
  exact ⟨hcondition, rfl⟩

theorem offset_eq_ok (h : offset s = (.ok n, t)) : n = s.offset ∧ t = s := by
  obtain ⟨hok, rfl⟩ := Prod.mk.inj h
  exact ⟨(Except.ok.inj hok).symm, rfl⟩

theorem part_eq_ok {offset len : ℕ} {bytes : Bytes len} (h : part tx offset len s = (.ok bytes, t)) :
    bytes.toList = (tx.drop offset).take len ∧ offset + len ≤ tx.length ∧ t.offset = s.offset ∧
      t.wrapped = s.wrapped := by
  obtain ⟨hok, rfl⟩ := Prod.mk.inj h
  split_ifs at hok with hoverflow hinside
  cases hok
  exact ⟨rfl, hinside, rfl, rfl⟩

theorem moves_outputs {left : ℕ} {u : Unit} (h : outputs tx left s = (.ok u, t)) (ht : t.wrapped = false) :
    Moves tx s t fun enc =>
      ∃ written : List ParsedTxOut, written.length = left ∧ enc = (written.map ParsedTxOut.serialize).flatten := by
  induction left generalizing s with
  | zero =>
    obtain ⟨-, rfl⟩ := Prod.mk.inj h
    exact ⟨ht, le_rfl, fun _ => ⟨[], ⟨[], rfl, rfl⟩, rfl⟩⟩
  | succ left ih =>
    simp only [outputs, bind_eq_ok] at h
    obtain ⟨_, a, hadvance, script, b, hsized, houtputs⟩ := h
    have hrest := ih houtputs
    have hscript := moves_sized hsized hrest.unwrapped
    have houtput : Moves tx s b fun enc => ∃ output : ParsedTxOut, enc = output.serialize := by
      refine (moves_advance hadvance hscript.unwrapped).trans hscript ?_
      rintro amount _ hamount ⟨body, rfl, rfl⟩
      obtain ⟨value, rfl⟩ := exists_unsigned (show 256 ^ 8 = 2 ^ 64 by norm_num) hamount
      exact ⟨⟨value, body⟩, rfl⟩
    refine houtput.trans hrest ?_
    rintro _ _ ⟨output, rfl⟩ ⟨written, rfl, rfl⟩
    exact ⟨output :: written, rfl, rfl⟩

theorem moves_reserved (h : reserved tx s = (.ok value, t)) (ht : t.wrapped = false) :
    t.offset = tx.length ∧ Moves tx s t fun enc =>
      ∃ lockTime : U32, enc = (compactSize 1 ++ (compactSize 32 ++ value.toList)) ++ leBytes 4 lockTime.val := by
  simp only [reserved, bind_eq_ok] at h
  obtain ⟨items, a, hitems, _, b, hone, size, c, hsize, _, d, hwide, start, e, hstart, found, f, hpart, _, g,
    hadvance, last, i, hlast, _, j, hend, hpure⟩ := h
  obtain ⟨hvalue, rfl⟩ := Prod.mk.inj hpure
  obtain rfl : found = value := Except.ok.inj hvalue
  obtain ⟨rfl, rfl⟩ := ensure_eq_ok hone
  obtain ⟨rfl, rfl⟩ := ensure_eq_ok hwide
  obtain ⟨rfl, rfl⟩ := offset_eq_ok hstart
  obtain ⟨rfl, rfl⟩ := offset_eq_ok hlast
  obtain ⟨hfinal, rfl⟩ := ensure_eq_ok hend
  obtain ⟨hbytes, hinside, hoffset, hwrapped⟩ := part_eq_ok hpart
  obtain ⟨hf, hnext, -⟩ := advance_eq_ok hadvance ht
  rw [hoffset] at hnext
  have hitem := moves_sized hsize (hwrapped ▸ hf)
  have hcount := moves_sized hitems hitem.unwrapped
  have htail : Moves tx e j fun enc => ∃ lockTime : U32, enc = found.toList ++ leBytes 4 lockTime.val := by
    refine ⟨hwrapped ▸ hf, by omega, fun _ => ⟨(tx.drop e.offset).take (32 + 4), ?_, ?_⟩⟩
    · have hlen : (((tx.drop e.offset).drop 32).take 4).length = 4 := by
        simp only [length_take, length_drop]
        omega
      obtain ⟨lockTime, hlock⟩ := exists_unsigned (show 256 ^ 4 = 2 ^ 32 by norm_num) hlen
      exact ⟨lockTime, by rw [hbytes, hlock, take_add]⟩
    · rw [hnext, ← drop_drop, take_append_drop]
  have hstack : Moves tx b j fun enc => ∃ lockTime : U32, enc = compactSize 32 ++ (found.toList ++
      leBytes 4 lockTime.val) := by
    refine hitem.trans htail ?_
    rintro _ _ hsize ⟨lockTime, rfl⟩
    exact ⟨lockTime, by rw [hsize.eq_compactSize]⟩
  refine ⟨hfinal, hcount.trans hstack ?_⟩
  rintro _ _ hsize ⟨lockTime, rfl⟩
  exact ⟨lockTime, by rw [hsize.eq_compactSize]; simp only [append_assoc]⟩

theorem exists_input {point body : List UInt8} {script : ℕ} (stack : List (List UInt8)) (hpoint : point.length = 36)
    (hbody : body.length = script + 4) :
    ∃ input : TxInput, input.witnessStack = stack ∧ point ++ (compactSize script ++ body) = input.serialize := by
  obtain ⟨vout, hvout⟩ := exists_unsigned (show 256 ^ 4 = 2 ^ 32 by norm_num)
    (show (point.drop 32).length = 4 by rw [length_drop, hpoint])
  obtain ⟨sequence, hsequence⟩ := exists_unsigned (show 256 ^ 4 = 2 ^ 32 by norm_num)
    (show (body.drop script).length = 4 by rw [length_drop, hbody]; omega)
  have hsig : (body.take script).length = script := length_take_of_le (by omega)
  refine ⟨⟨⟨point.take 32, length_take_of_le (by omega)⟩, vout, body.take script, sequence, stack⟩,
    rfl, ?_⟩
  simp only [TxInput.serialize, List.Vector.toList, hvout, hsequence, hsig]
  conv_lhs => rw [← take_append_drop 32 point, ← take_append_drop script body]
  simp only [append_assoc]

theorem coinbase_sound (h : coinbase tx s = (.ok value, t)) (hstart : s.offset = 6) (ht : t.wrapped = false) :
    IsWitnessCoinbase tx value := by
  simp only [coinbase, body, bind_eq_ok] at h
  obtain ⟨marker, a, hmarker, _, b, hmarked, inputs, c, hinputs, _, d, hone, _, e, hadvance, script, f, hscript,
    count, g, hcount, _, i, houtputs, hreserved⟩ := h
  obtain ⟨hflag, rfl⟩ := ensure_eq_ok hmarked
  obtain ⟨rfl, rfl⟩ := ensure_eq_ok hone
  obtain ⟨hbytes, hinside, hoffset, -⟩ := part_eq_ok hmarker
  obtain ⟨hend, htail⟩ := moves_reserved hreserved ht
  have hwritten := moves_outputs houtputs htail.unwrapped
  have houtputCount := moves_sized hcount hwritten.unwrapped
  have hsequence := moves_sized hscript houtputCount.unwrapped
  have hpoint : Moves tx d e fun enc => enc.length = 36 := moves_advance hadvance hsequence.unwrapped
  have hinputCount := moves_sized hinputs hpoint.unwrapped
  have hinput : Moves tx d f fun enc => ∃ input : TxInput, input.witnessStack = [value.toList] ∧
      enc = input.serialize := by
    refine hpoint.trans hsequence ?_
    rintro point _ hpoint ⟨body, rfl, hbody⟩
    exact exists_input [value.toList] hpoint hbody
  have hall := hinputCount.join (hinput.join (houtputCount.join (hwritten.join htail)))
  obtain ⟨_, ⟨_, _, hsingle, ⟨_, _, ⟨input, hstack, rfl⟩, ⟨_, _, hnumber, ⟨_, _, ⟨written, rfl, rfl⟩,
    ⟨lockTime, rfl⟩, rfl⟩, rfl⟩, rfl⟩, rfl⟩, hdrop⟩ := hall.bytes hend.le
  obtain ⟨version, hversion⟩ := exists_unsigned (show 256 ^ 4 = 2 ^ 32 by norm_num)
    (show (tx.take 4).length = 4 by rw [length_take]; omega)
  refine ⟨version, input, written, lockTime, hstack, ?_⟩
  rw [hoffset, hstart, hend, drop_length, append_nil, hsingle.eq_compactSize, hnumber.eq_compactSize] at hdrop
  rw [hflag] at hbytes
  have hhead : tx.take 6 = leBytes 4 version.val ++ [0, 1] := by
    rw [hversion, hbytes, ← take_add]
  rw [← take_append_drop 6 tx, hhead, hdrop]
  simp only [serializeWithWitness, TxInput.serializeWitness, hstack, length_singleton, map_cons, map_nil,
    flatten_cons, flatten_nil, append_nil, append_assoc, List.Vector.toList_length]

/-- Where `enc` stands, the walk gets past it without wrapping. -/
def Passes (tx : List UInt8) (m : Walk α) (enc : List UInt8) (x : α) : Prop :=
  ∀ (s : WalkState) (rest : List UInt8), s.wrapped = false → s.offset ≤ tx.length →
    tx.drop s.offset = enc ++ rest →
    ∃ t, m s = (.ok x, t) ∧ t.wrapped = false ∧ t.offset = s.offset + enc.length ∧ t.offset ≤ tx.length ∧
      tx.drop t.offset = rest

namespace Passes

theorem bind {enc' : List UInt8} {x : α} {y : β} (hm : Passes tx m enc x) (hf : Passes tx (f x) enc' y) :
    Passes tx (m >>= f) (enc ++ enc') y := by
  intro s rest hs hin hdrop
  rw [append_assoc] at hdrop
  obtain ⟨t, hrun, ht, hoffset, htin, htdrop⟩ := hm s _ hs hin hdrop
  obtain ⟨u, hnext, hu, huoffset, huin, hudrop⟩ := hf t rest ht htin htdrop
  refine ⟨u, bind_eq_ok.mpr ⟨x, t, hrun, hnext⟩, hu, ?_, huin, hudrop⟩
  rw [huoffset, hoffset, length_append, Nat.add_assoc]

theorem pure (x : α) : Passes tx (Pure.pure x : Walk α) [] x :=
  fun s _ hs hin hdrop => ⟨s, rfl, hs, rfl, hin, hdrop⟩

theorem ensure {condition : Prop} [Decidable condition] (h : condition) (error : String) :
    Passes tx (Walk.ensure condition error) [] () := by
  intro s rest hs hin hdrop
  exact ⟨s, by rw [Walk.ensure, if_pos h], hs, rfl, hin, hdrop⟩

theorem advance (hfit : tx.length < 2 ^ 64) (enc : List UInt8) : Passes tx (Walk.advance enc.length) enc () := by
  intro s rest hs hin hdrop
  have hlen := congrArg List.length hdrop
  rw [length_drop, length_append] at hlen
  have hsum : (s.offset + enc.length) % 2 ^ 64 = s.offset + enc.length := Nat.mod_eq_of_lt (by omega)
  refine ⟨_, rfl, ?_, hsum, ?_, ?_⟩
  · simp only [hs, Bool.false_or, decide_eq_false_iff_not]
    omega
  · show (s.offset + enc.length) % 2 ^ 64 ≤ _
    omega
  · show tx.drop ((s.offset + enc.length) % 2 ^ 64) = rest
    rw [hsum, ← drop_drop, hdrop, drop_left]

theorem sized (hfit : tx.length < 2 ^ 64) {value : ℕ} (hvalue : value < 2 ^ 64) {body : List UInt8}
    (hbody : body.length = extra value) : Passes tx (Walk.sized tx extra) (compactSize value ++ body) value := by
  intro s rest hs hin hdrop
  have hcount : count tx s = (.ok (value, (compactSize value).length), { s with reads := s.reads + 1 }) := by
    rw [count, if_pos hin, hdrop, append_assoc, decodeCompactSize_compactSize hvalue]
  obtain ⟨t, hrun, ht⟩ := advance hfit (compactSize value ++ body) { s with reads := s.reads + 1 } rest hs hin hdrop
  rw [length_append, hbody] at hrun
  exact ⟨t, bind_eq_ok.mpr ⟨_, _, hcount, bind_eq_ok.mpr ⟨(), t, hrun, rfl⟩⟩, ht⟩

theorem outputs (hfit : tx.length < 2 ^ 64) (hsizes : ∀ output ∈ written, output.scriptPubkey.length < 2 ^ 64) :
    Passes tx (Walk.outputs tx written.length) (written.map ParsedTxOut.serialize).flatten () := by
  induction written with
  | nil => exact pure ()
  | cons output written ih =>
    have hamount := advance hfit (leBytes 8 output.amountSats.val)
    rw [length_leBytes] at hamount
    have hone : Passes tx (Walk.outputs tx (written.length + 1))
        (leBytes 8 output.amountSats.val ++ ((compactSize output.scriptPubkey.length ++ output.scriptPubkey) ++
          (written.map ParsedTxOut.serialize).flatten)) () :=
      hamount.bind ((sized hfit (hsizes output mem_cons_self) rfl).bind
        (ih fun other hmem => hsizes other (mem_cons_of_mem _ hmem)))
    rw [← append_assoc] at hone
    exact hone

end Passes

/-- Where `enc` is all that is left, the walk ends well. -/
def Ends (tx : List UInt8) (m : Walk α) (enc : List UInt8) (x : α) : Prop :=
  ∀ s : WalkState, s.wrapped = false → s.offset ≤ tx.length → tx.drop s.offset = enc →
    ∃ t, m s = (.ok x, t) ∧ t.wrapped = false

theorem Passes.ends {enc' : List UInt8} {x : α} {y : β} (hm : Passes tx m enc x) (hf : Ends tx (f x) enc' y) :
    Ends tx (m >>= f) (enc ++ enc') y := by
  intro s hs hin hdrop
  obtain ⟨t, hrun, ht, -, htin, htdrop⟩ := hm s enc' hs hin hdrop
  obtain ⟨u, hnext, hu⟩ := hf t ht htin htdrop
  exact ⟨u, bind_eq_ok.mpr ⟨x, t, hrun, hnext⟩, hu⟩

section
variable (hfit : tx.length < 2 ^ 64)
include hfit

theorem part_of_drop {start len : ℕ} {value : Bytes len} {rest : List UInt8}
    (hstart : start ≤ tx.length) (hdrop : tx.drop start = value.toList ++ rest) (s : WalkState) :
    part tx start len s = (.ok value, { s with reads := s.reads + 1 }) := by
  have hlen := congrArg List.length hdrop
  rw [length_drop, length_append, value.toList_length] at hlen
  have htake : (tx.drop start).take len = value.toList := by
    rw [hdrop, take_left' value.toList_length]
  rw [part, if_neg (by omega), dif_pos (by omega)]
  simp only [htake]
  rfl

variable {lockTime : List UInt8}

theorem ends_value (hlock : lockTime.length = 4) : Ends tx (do
      let start ← offset
      let value ← part tx start 32
      advance (32 + 4)
      let last ← offset
      ensure (last = tx.length) "landed coinbase has trailing bytes"
      pure value) (value.toList ++ lockTime) value := by
  intro s hs hin hdrop
  have hlen : (value.toList ++ lockTime).length = 32 + 4 := by
    rw [length_append, value.toList_length, hlock]
  have hmove := Passes.advance hfit (value.toList ++ lockTime)
  rw [hlen] at hmove
  obtain ⟨t, hrun, ht, hoffset, -, hrest⟩ := hmove { s with reads := s.reads + 1 } [] hs hin
    (by rw [append_nil]; exact hdrop)
  have hend : t.offset = tx.length := by
    have hall := congrArg List.length hdrop
    rw [length_drop, hlen] at hall
    rw [hoffset, hlen]
    show s.offset + (32 + 4) = _
    omega
  refine ⟨t, ?_, ht⟩
  refine bind_eq_ok.mpr ⟨s.offset, s, rfl, bind_eq_ok.mpr ⟨value, _, part_of_drop hfit hin hdrop s,
    bind_eq_ok.mpr ⟨(), t, hrun, bind_eq_ok.mpr ⟨t.offset, t, rfl, bind_eq_ok.mpr ⟨(), t, ?_, rfl⟩⟩⟩⟩⟩
  rw [ensure, if_pos hend]

theorem ends_reserved (hlock : lockTime.length = 4) :
    Ends tx (reserved tx) (compactSize 1 ++ (compactSize 32 ++ (value.toList ++ lockTime))) value := by
  have hone : Passes tx (sized tx fun _ => 0) (compactSize 1 ++ []) 1 := Passes.sized hfit (by norm_num) rfl
  have hwide : Passes tx (sized tx fun _ => 0) (compactSize 32 ++ []) 32 := Passes.sized hfit (by norm_num) rfl
  rw [append_nil] at hone hwide
  exact hone.ends ((Passes.ensure rfl _).ends (hwide.ends ((Passes.ensure rfl _).ends (ends_value hfit hlock))))

theorem ends_body {input : TxInput} (hscript : input.scriptSig.length < 2 ^ 64) (hcount : written.length < 2 ^ 64)
    (hsizes : ∀ output ∈ written, output.scriptPubkey.length < 2 ^ 64) (hlock : lockTime.length = 4) :
    Ends tx (body tx) (compactSize 1 ++ ((input.prevTxid.toList ++ leBytes 4 input.prevVout.val) ++
      ((compactSize input.scriptSig.length ++ (input.scriptSig ++ leBytes 4 input.sequence.val)) ++
        (compactSize written.length ++ ((written.map ParsedTxOut.serialize).flatten ++
          (compactSize 1 ++ (compactSize 32 ++ (value.toList ++ lockTime)))))))) value := by
  have hone : Passes tx (sized tx fun _ => 0) (compactSize 1 ++ []) 1 := Passes.sized hfit (by norm_num) rfl
  have hpoint := Passes.advance hfit (input.prevTxid.toList ++ leBytes 4 input.prevVout.val)
  have hnumber : Passes tx (sized tx fun _ => 0) (compactSize written.length ++ []) written.length :=
    Passes.sized hfit hcount rfl
  have hsequence : Passes tx (sized tx fun script => script + 4) (compactSize input.scriptSig.length ++
      (input.scriptSig ++ leBytes 4 input.sequence.val)) input.scriptSig.length :=
    Passes.sized hfit hscript (by rw [length_append, length_leBytes])
  rw [append_nil] at hone hnumber
  rw [length_append, length_leBytes, List.Vector.toList_length] at hpoint
  exact hone.ends ((Passes.ensure rfl _).ends (hpoint.ends (hsequence.ends (hnumber.ends
    ((Passes.outputs hfit hsizes).ends (ends_reserved hfit hlock))))))

theorem run_complete (h : IsWitnessCoinbase tx value) : ∃ t, run tx = (.ok value, t) ∧ t.wrapped = false := by
  obtain ⟨version, input, written, lockTime, hstack, htx⟩ := h
  have hbody : tx = leBytes 4 version.val ++ ([0, 1] ++ (compactSize 1 ++ ((input.prevTxid.toList ++
      leBytes 4 input.prevVout.val) ++ ((compactSize input.scriptSig.length ++ (input.scriptSig ++
        leBytes 4 input.sequence.val)) ++ (compactSize written.length ++
          ((written.map ParsedTxOut.serialize).flatten ++ (compactSize 1 ++ (compactSize 32 ++
            (value.toList ++ leBytes 4 lockTime.val))))))))) := by
    rw [htx]
    simp only [serializeWithWitness, TxInput.serialize, TxInput.serializeWitness, hstack, length_singleton, map_cons,
      map_nil, flatten_cons, flatten_nil, append_nil, append_assoc, List.Vector.toList_length]
  have hsizes := congrArg List.length hbody
  simp only [length_append, length_leBytes, length_cons] at hsizes
  have hcount : (written.map ParsedTxOut.serialize).length ≤ _ := length_le_flatten
    (forall_mem_map.mpr fun output _ => output.serialize_ne_nil)
  rw [length_map] at hcount
  have hscripts : ∀ output ∈ written, output.scriptPubkey.length < 2 ^ 64 := by
    intro output hmem
    have hsub := (sublist_flatten_of_mem (mem_map_of_mem (f := ParsedTxOut.serialize) hmem)).length_le
    simp only [ParsedTxOut.serialize, length_append] at hsub
    omega
  have hscript : input.scriptSig.length < 2 ^ 64 := by omega
  have hnumber : written.length < 2 ^ 64 := by omega
  have hdrop := (congrArg (List.drop 4) hbody).trans (drop_left' (length_leBytes 4 _))
  have hmarker : part tx 4 2 { offset := 6, reads := 0, wrapped := false } =
      (.ok ⟨[0, 1], rfl⟩, { offset := 6, reads := 1, wrapped := false }) :=
    part_of_drop hfit (by omega) hdrop _
  obtain ⟨t, hrun, ht⟩ := ends_body hfit hscript hnumber hscripts (length_leBytes 4 lockTime.val)
    { offset := 6, reads := 1, wrapped := false } rfl (by simp only; omega)
    (by rw [← append_assoc] at hbody; rw [hbody]; exact drop_left' rfl)
  exact ⟨t, bind_eq_ok.mpr ⟨_, _, hmarker, bind_eq_ok.mpr ⟨(), _, rfl, hrun⟩⟩, ht⟩

end

end Walk

def plainCoinbase : List UInt8 :=
  leBytes 4 2 ++ ([0, 1, 1] ++ (List.replicate 36 0 ++ ([0] ++ (leBytes 4 0 ++
    ([0, 1, 32] ++ (List.replicate 32 7 ++ leBytes 4 0))))))

/-- A script of `2 ^ 64 - 4` bytes, which takes the walk back over the four bytes of the sequence. -/
def wrappingCoinbase : List UInt8 :=
  leBytes 4 2 ++ ([0, 1, 1] ++ (List.replicate 36 0 ++ ((255 :: leBytes 8 (2 ^ 64 - 4)) ++
    ([0, 1, 32] ++ (List.replicate 32 7 ++ leBytes 4 0)))))

/-- An output of `2 ^ 64 - 17` bytes, which takes the loop back to where the output starts. -/
def loopingCoinbase : List UInt8 :=
  leBytes 4 2 ++ ([0, 1, 1] ++ (List.replicate 36 0 ++ ([0] ++ (leBytes 4 0 ++
    ((255 :: leBytes 8 (2 ^ 63)) ++ (leBytes 8 0 ++ (255 :: leBytes 8 (2 ^ 64 - 17))))))))

theorem loopingCoinbase_step (s : WalkState) (hs : s.offset = 57) :
    ∃ t, (Walk.advance 8 >>= fun _ => Walk.sized loopingCoinbase fun script => script) s =
      (.ok (2 ^ 64 - 17), t) ∧ t.offset = 57 ∧ t.reads = s.reads + 1 := by
  have hdecode : decodeCompactSize (loopingCoinbase.drop 65) = .ok (2 ^ 64 - 17, 9) := by decide +kernel
  have hinside : 65 ≤ loopingCoinbase.length := by decide +kernel
  have hcount : ∀ u : WalkState, u.offset = 65 → Walk.count loopingCoinbase u =
      (.ok (2 ^ 64 - 17, 9), { u with reads := u.reads + 1 }) := by
    intro u hu
    rw [Walk.count, hu, if_pos hinside, hdecode]
  have hmove : ∀ u : WalkState, u.offset = 65 → ∃ t, Walk.advance (9 + (2 ^ 64 - 17)) u = (.ok (), t) ∧
      t.offset = 57 ∧ t.reads = u.reads := by
    intro u hu
    refine ⟨_, rfl, ?_, rfl⟩
    simp only [hu]
    norm_num
  obtain ⟨u, hu, huoffset, hureads⟩ : ∃ u, Walk.advance 8 s = (.ok (), u) ∧ u.offset = 65 ∧ u.reads = s.reads := by
    refine ⟨_, rfl, ?_, rfl⟩
    simp only [hs]
    norm_num
  obtain ⟨t, ht, htoffset, htreads⟩ := hmove { u with reads := u.reads + 1 } huoffset
  refine ⟨t, Walk.bind_eq_ok.mpr ⟨(), u, hu, Walk.bind_eq_ok.mpr ⟨_, _, hcount u huoffset,
    Walk.bind_eq_ok.mpr ⟨(), t, ht, rfl⟩⟩⟩, htoffset, ?_⟩
  rw [htreads, ← hureads]

theorem loopingCoinbase_loops (left : ℕ) (s : WalkState) (hs : s.offset = 57) :
    ∃ t, Walk.outputs loopingCoinbase left s = (.ok (), t) ∧ t.offset = 57 ∧ t.reads = s.reads + left := by
  induction left generalizing s with
  | zero => exact ⟨s, rfl, hs, rfl⟩
  | succ left ih =>
    obtain ⟨u, hstep, hu, hureads⟩ := loopingCoinbase_step s hs
    obtain ⟨t, hrun, ht, htreads⟩ := ih u hu
    obtain ⟨_, v, hadvance, hsized⟩ := Walk.bind_eq_ok.mp hstep
    refine ⟨t, Walk.bind_eq_ok.mpr ⟨(), v, hadvance, Walk.bind_eq_ok.mpr ⟨_, u, hsized, hrun⟩⟩, ht, ?_⟩
    omega

theorem loopingCoinbase_reads : 2 ^ 63 ≤ (Walk.run loopingCoinbase).2.reads := by
  have hmarker : Walk.part loopingCoinbase 4 2 ⟨6, 0, false⟩ =
      (.ok (0 ::ᵥ 1 ::ᵥ List.Vector.nil), ⟨6, 1, false⟩) := by rfl
  have hflag : (0 ::ᵥ 1 ::ᵥ List.Vector.nil : Bytes 2).toList = [0, 1] := rfl
  have hinputs : Walk.sized loopingCoinbase (fun _ => 0) ⟨6, 1, false⟩ = (.ok 1, ⟨7, 2, false⟩) := by rfl
  have hscript : Walk.sized loopingCoinbase (fun script => script + 4) ⟨43, 2, false⟩ =
      (.ok 0, ⟨48, 3, false⟩) := by rfl
  have hcount : Walk.sized loopingCoinbase (fun _ => 0) ⟨48, 3, false⟩ = (.ok (2 ^ 63), ⟨57, 4, false⟩) := by rfl
  have hpoint : Walk.advance 36 ⟨7, 2, false⟩ = (.ok (), ⟨43, 2, false⟩) := by rfl
  have hchecked : ∀ (condition : Prop) [Decidable condition] (error : String) (s : WalkState), condition →
      Walk.ensure condition error s = (.ok (), s) := by
    intro condition _ error s h
    rw [Walk.ensure, if_pos h]
  obtain ⟨t, hloop, hoffset, hreads⟩ := loopingCoinbase_loops (2 ^ 63) ⟨57, 4, false⟩ rfl
  have hrun : Walk.run loopingCoinbase = Walk.reserved loopingCoinbase t := by
    rw [Walk.run, Walk.coinbase, Walk.bind_of_ok hmarker, Walk.bind_of_ok (hchecked _ _ _ hflag), Walk.body,
      Walk.bind_of_ok hinputs, Walk.bind_of_ok (hchecked _ _ _ rfl), Walk.bind_of_ok hpoint,
      Walk.bind_of_ok hscript, Walk.bind_of_ok hcount, Walk.bind_of_ok hloop]
  -- The stack is then read at the value of the output, and has no item.
  have hitems : decodeCompactSize (loopingCoinbase.drop 57) = .ok (0, 1) := by decide +kernel
  have hinside : 57 ≤ loopingCoinbase.length := by decide +kernel
  have hread : Walk.count loopingCoinbase t = (.ok (0, 1), { t with reads := t.reads + 1 }) := by
    rw [Walk.count, hoffset, if_pos hinside, hitems]
  rw [hrun, Walk.reserved, Walk.sized, bind_assoc, Walk.bind_of_ok hread]
  show 2 ^ 63 ≤ t.reads + 1
  omega

end QbitPrism
