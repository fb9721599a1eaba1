import Mathlib
import QbitPrism.Lib.Checked

/-!
# Readers of byte strings

A reader consumes a prefix of its input or fails. `Reads` says that a reader, given an
encoding followed by anything, returns the value encoded there and leaves the rest. It is
proved for the pieces of a format and composed along the format's reader. `Writes` says
that a reader accepts nothing else: what it consumed is the encoding of what it returned.
-/
namespace ByteReader
open Checked List

variable {ε α β : Type}

/-- A byte string of known length. -/
abbrev Bytes (n : ℕ) := List.Vector UInt8 n

/-- `try_into` an array of `n` bytes. -/
def Bytes.ofList? (n : ℕ) (bytes : List UInt8) : Option (Bytes n) :=
  if h : bytes.length = n then some ⟨bytes, h⟩ else none

variable {bytes : List UInt8}

theorem Bytes.ofList?_eq_some {n : ℕ} {b : Bytes n} :
    Bytes.ofList? n bytes = some b ↔ bytes = b.toList := by
  unfold Bytes.ofList?
  constructor
  · intro h
    split_ifs at h
    cases h
    rfl
  · rintro rfl
    rw [dif_pos b.toList_length]
    rfl

/-- The `width` low bytes of a value, least significant first. -/
def leBytes : ℕ → ℕ → List UInt8
  | 0, _ => []
  | width + 1, value => UInt8.ofNat (value % 256) :: leBytes width (value / 256)

def ofLeBytes : List UInt8 → ℕ
  | [] => 0
  | b :: bytes => b.toNat + 256 * ofLeBytes bytes

def beBytes (width value : ℕ) : List UInt8 := (leBytes width value).reverse

def beBytesSigned (width : ℕ) (value : ℤ) : List UInt8 :=
  beBytes width (value % 256 ^ width).toNat

@[simp] theorem length_leBytes (width value : ℕ) : (leBytes width value).length = width := by
  induction width generalizing value with
  | zero => rfl
  | succ width ih => simp [leBytes, ih]

variable {width value : ℕ}

theorem ofLeBytes_leBytes (h : value < 256 ^ width) : ofLeBytes (leBytes width value) = value := by
  induction width generalizing value with
  | zero =>
    simp at h
    simp [h, leBytes, ofLeBytes]
  | succ width ih =>
    have hquot : value / 256 < 256 ^ width := by
      apply Nat.div_lt_of_lt_mul
      rwa [pow_succ, Nat.mul_comm] at h
    have hbyte : (UInt8.ofNat (value % 256)).toNat = value % 256 :=
      UInt8.toNat_ofNat_of_lt (by simp [UInt8.size]; omega)
    rw [leBytes, ofLeBytes, ih hquot, hbyte]
    omega

theorem ofLeBytes_lt (bytes : List UInt8) : ofLeBytes bytes < 256 ^ bytes.length := by
  induction bytes with
  | nil => simp [ofLeBytes]
  | cons b bytes ih =>
    have hb := b.toNat_lt
    simp only [ofLeBytes, length_cons, pow_succ]
    omega

theorem leBytes_ofLeBytes (bytes : List UInt8) : leBytes bytes.length (ofLeBytes bytes) = bytes := by
  induction bytes with
  | nil => rfl
  | cons b bytes ih =>
    have hb := b.toNat_lt
    have hlow : (b.toNat + 256 * ofLeBytes bytes) % 256 = b.toNat := by omega
    have hhigh : (b.toNat + 256 * ofLeBytes bytes) / 256 = ofLeBytes bytes := by omega
    rw [length_cons, ofLeBytes, leBytes, hlow, hhigh, ih, UInt8.ofNat_toNat]

variable {encodings : List (List UInt8)} {xs : List α}

theorem length_le_flatten (hne : ∀ bytes ∈ encodings, bytes ≠ []) : encodings.length ≤ encodings.flatten.length := by
  rw [length_flatten, ← length_map (f := List.length)]
  apply length_le_sum_of_one_le
  intro n hn
  obtain ⟨bytes, hmem, rfl⟩ := mem_map.mp hn
  exact length_pos_iff.mpr (hne bytes hmem)

/-- A reader: what it read and what it left, or why it failed. -/
abbrev Reader (ε α : Type) := StateT (List UInt8) (Except ε) α

variable {item : Reader ε α}

theorem bind_apply (r : Reader ε α) (f : α → Reader ε β) (input : List UInt8) :
    (r >>= f) input = (r input) >>= fun x => f x.1 x.2 := rfl

/-- Read exactly `len` bytes. -/
def take (truncated : ε) (len : ℕ) : Reader ε (List UInt8) := fun input =>
  if len ≤ input.length then .ok (input.take len, input.drop len) else .error truncated

def peek (truncated : ε) : Reader ε UInt8 := fun input =>
  match input with
  | [] => .error truncated
  | b :: _ => .ok (b, input)

def byte (truncated : ε) : Reader ε UInt8 := fun input =>
  match input with
  | [] => .error truncated
  | b :: rest => .ok (b, rest)

/-- A little-endian value of `width` bytes. -/
def le (truncated : ε) (width : ℕ) : Reader ε ℕ := do
  let bytes ← take truncated width
  pure (ofLeBytes bytes)

def remaining : Reader ε ℕ := fun input => .ok (input.length, input)

def fail (e : ε) : Reader ε α := fun _ => .error e

/-- Read `count` items. -/
def many (item : Reader ε α) : ℕ → Reader ε (List α)
  | 0 => pure []
  | count + 1 => do
    let x ← item
    let xs ← many item count
    pure (x :: xs)

/-- `r` reads `x` from `bytes`: whatever follows, if `r` succeeds it returned `x` and left
what follows, and it does succeed when `ok` holds and `need` more bytes follow. -/
structure Reads (ok : Prop) (need : ℕ) (r : Reader ε α) (bytes : List UInt8) (x : α) : Prop where
  only : ∀ rest y rest', r (bytes ++ rest) = .ok (y, rest') → y = x ∧ rest' = rest
  accepts : ok → ∀ rest : List UInt8, need ≤ rest.length → r (bytes ++ rest) = .ok (x, rest)

namespace Reads

variable {r : Reader ε α} {x : α}

theorem of_eq (h : ∀ rest, r (bytes ++ rest) = .ok (x, rest)) : Reads True 0 r bytes x where
  only rest y rest' hr := by
    rw [h rest] at hr
    cases hr
    exact ⟨rfl, rfl⟩
  accepts _ rest _ := h rest

theorem pure (x : α) : Reads True 0 (Pure.pure x : Reader ε α) [] x :=
  of_eq fun _ => rfl

theorem bind {ok ok' : Prop} {need need' : ℕ} {f : α → Reader ε β} {bytes' : List UInt8} {y : β}
    (hr : Reads ok need r bytes x) (hf : Reads ok' need' (f x) bytes' y) (hneed : need ≤ bytes'.length + need') :
    Reads (ok ∧ ok') need' (r >>= f) (bytes ++ bytes') y where
  only rest z rest' h := by
    rw [bind_apply, append_assoc, bind_eq_ok] at h
    obtain ⟨⟨a, mid⟩, ha, hb⟩ := h
    obtain ⟨rfl, rfl⟩ := hr.only _ _ _ ha
    exact hf.only _ _ _ hb
  accepts hok rest hrest := by
    rw [bind_apply, append_assoc, hr.accepts hok.1 _ (by rw [length_append]; omega)]
    exact hf.accepts hok.2 rest hrest

theorem mono {ok ok' : Prop} {need need' : ℕ} (h : Reads ok need r bytes x) (hok : ok' → ok) (hneed : need ≤ need') :
    Reads ok' need' r bytes x where
  only := h.only
  accepts hok' rest hrest := h.accepts (hok hok') rest (hneed.trans hrest)

theorem take (truncated : ε) (bytes : List UInt8) :
    Reads True 0 (ByteReader.take truncated bytes.length) bytes bytes := by
  apply of_eq
  intro rest
  simp [ByteReader.take]

theorem byte (truncated : ε) (b : UInt8) : Reads True 0 (ByteReader.byte truncated) [b] b :=
  of_eq fun _ => rfl

theorem le (truncated : ε) (h : value < 256 ^ width) :
    Reads True 0 (ByteReader.le truncated width) (leBytes width value) value := by
  apply of_eq
  intro rest
  have htake := (take truncated (leBytes width value)).accepts trivial rest (Nat.zero_le _)
  rw [length_leBytes] at htake
  rw [ByteReader.le, bind_apply, htake]
  show Except.ok (ofLeBytes (leBytes width value), rest) = _
  rw [ofLeBytes_leBytes h]

theorem many {ok : α → Prop} (h : List.Forall₂ (fun bytes x => Reads (ok x) 0 item bytes x) encodings xs) :
    Reads (∀ x ∈ xs, ok x) 0 (ByteReader.many item xs.length) encodings.flatten xs := by
  induction h with
  | nil => exact (pure []).mono (fun _ => trivial) le_rfl
  | @cons bytes x encodings xs hx _ ih =>
    have htail : Reads ((∀ x ∈ xs, ok x) ∧ True) 0
        (do let ys ← ByteReader.many item xs.length; Pure.pure (x :: ys))
        (encodings.flatten ++ []) (x :: xs) :=
      ih.bind (pure (x :: xs)) (Nat.zero_le _)
    have hitems : Reads (ok x ∧ (∀ x ∈ xs, ok x) ∧ True) 0 (ByteReader.many item (x :: xs).length)
        (bytes ++ (encodings.flatten ++ [])) (x :: xs) :=
      hx.bind htail (Nat.zero_le _)
    rw [append_nil] at hitems
    apply hitems.mono _ le_rfl
    intro hok
    exact ⟨hok x (by simp), fun y hy => hok y (by simp [hy]), trivial⟩

end Reads

/-- What `r` consumes is an encoding of what it returns. -/
def Writes (Encodes : α → List UInt8 → Prop) (r : Reader ε α) : Prop :=
  ∀ input x rest, r input = .ok (x, rest) → ∃ bytes, Encodes x bytes ∧ input = bytes ++ rest

variable {truncated : ε} {input rest : List UInt8}

theorem take_eq_ok {len : ℕ} (h : take truncated len input = .ok (bytes, rest)) :
    input = bytes ++ rest ∧ bytes.length = len := by
  unfold take at h
  split_ifs at h with hlen
  cases h
  exact ⟨(take_append_drop len input).symm, length_take_of_le hlen⟩

theorem byte_eq_ok {b : UInt8} (h : byte truncated input = .ok (b, rest)) : input = b :: rest := by
  cases input with
  | nil => cases h
  | cons c input =>
    cases h
    rfl

theorem peek_eq_ok {b : UInt8} (h : peek truncated input = .ok (b, rest)) :
    rest = input ∧ input.head? = some b := by
  cases input with
  | nil => cases h
  | cons c input =>
    cases h
    exact ⟨rfl, rfl⟩

theorem le_eq_ok (h : le truncated width input = .ok (value, rest)) :
    input = leBytes width value ++ rest ∧ value < 256 ^ width := by
  rw [le, bind_apply, bind_eq_ok] at h
  obtain ⟨⟨bytes, _⟩, hbytes, h⟩ := h
  cases h
  obtain ⟨rfl, rfl⟩ := take_eq_ok hbytes
  exact ⟨by rw [leBytes_ofLeBytes], ofLeBytes_lt bytes⟩

theorem many_eq_ok {Encodes : α → List UInt8 → Prop} (hitem : Writes Encodes item) {count : ℕ}
    (h : many item count input = .ok (xs, rest)) :
    (∃ encodings, List.Forall₂ Encodes xs encodings ∧ input = encodings.flatten ++ rest) ∧
      xs.length = count := by
  induction count generalizing input xs with
  | zero =>
    cases h
    exact ⟨⟨[], .nil, rfl⟩, rfl⟩
  | succ count ih =>
    rw [many, bind_apply, bind_eq_ok] at h
    obtain ⟨⟨x, _⟩, hx, h⟩ := h
    rw [bind_apply, bind_eq_ok] at h
    obtain ⟨⟨ys, _⟩, hys, h⟩ := h
    cases h
    obtain ⟨bytes, hbytes, rfl⟩ := hitem _ _ _ hx
    obtain ⟨⟨encodings, hencodings, rfl⟩, rfl⟩ := ih hys
    refine ⟨⟨bytes :: encodings, .cons hbytes hencodings, ?_⟩, rfl⟩
    rw [flatten_cons, append_assoc]

theorem many_forall {P : α → Prop} (hitem : ∀ input x rest, item input = .ok (x, rest) → P x) {count : ℕ}
    (h : many item count input = .ok (xs, rest)) : ∀ x ∈ xs, P x := by
  induction count generalizing input xs with
  | zero =>
    cases h
    simp
  | succ count ih =>
    rw [many, bind_apply, bind_eq_ok] at h
    obtain ⟨⟨x, _⟩, hx, h⟩ := h
    rw [bind_apply, bind_eq_ok] at h
    obtain ⟨⟨ys, _⟩, hys, h⟩ := h
    cases h
    exact forall_mem_cons.mpr ⟨hitem _ x _ hx, ih hys⟩

/-- `r'` reads whatever `r` reads; only their failures may differ. -/
def Follows (r' r : Reader ε α) : Prop := ∀ input out, r input = .ok out → r' input = .ok out

namespace Follows

theorem refl (r : Reader ε α) : Follows r r := fun _ _ => id

theorem bind {r r' : Reader ε α} {f f' : α → Reader ε β} (hr : Follows r' r)
    (hf : ∀ x, Follows (f' x) (f x)) : Follows (r' >>= f') (r >>= f) := by
  intro input out h
  rw [bind_apply, bind_eq_ok] at h ⊢
  obtain ⟨x, hx, h⟩ := h
  exact ⟨x, hr input x hx, hf x.1 x.2 out h⟩

theorem ite {c : Prop} [Decidable c] {r s r' s' : Reader ε α} (hr : Follows r' r) (hs : Follows s' s) :
    Follows (if c then r' else s') (if c then r else s) := by
  split
  · exact hr
  · exact hs

theorem fail (r' : Reader ε α) (e : ε) : Follows r' (ByteReader.fail e) := fun _ _ h => nomatch h

theorem take (e e' : ε) (len : ℕ) : Follows (ByteReader.take e' len) (ByteReader.take e len) := by
  intro input out h
  unfold ByteReader.take at h ⊢
  split_ifs at h ⊢ with hlen
  exact h

theorem byte (e e' : ε) : Follows (ByteReader.byte e') (ByteReader.byte e) := by
  intro input out h
  cases input with
  | nil => exact nomatch h
  | cons b rest => exact h

theorem peek (e e' : ε) : Follows (ByteReader.peek e') (ByteReader.peek e) := by
  intro input out h
  cases input with
  | nil => exact nomatch h
  | cons b rest => exact h

theorem le (e e' : ε) (width : ℕ) : Follows (ByteReader.le e' width) (ByteReader.le e width) :=
  (take e e' width).bind fun _ => refl _

theorem many {item' : Reader ε α} (h : Follows item' item) (count : ℕ) :
    Follows (ByteReader.many item' count) (ByteReader.many item count) := by
  induction count with
  | zero => exact refl _
  | succ count ih => exact h.bind fun _ => ih.bind fun _ => refl _

end Follows

end ByteReader
