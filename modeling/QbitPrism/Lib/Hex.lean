import Mathlib
import QbitPrism.Lib.Checked

/-!
# Hexadecimal text

Encoding writes two lower-case digits for each byte. Decoding reads the UTF-8 bytes of
the text two by two and takes digits of either case, so the lower-case text of what it
reads is the encoding of the bytes it returns.
-/
namespace Hex
open Checked List

def digit (n : ℕ) : Char :=
  if n < 10 then Char.ofNat (48 + n) else Char.ofNat (87 + n)

def byteDigits (b : UInt8) : List Char :=
  [digit (b.toNat / 16), digit (b.toNat % 16)]

def encode (bytes : List UInt8) : String :=
  String.ofList (bytes.flatMap byteDigits)

inductive FromHexError where
  | invalidHexCharacter (c : Char) (index : ℕ)
  | oddLength
  deriving DecidableEq

def FromHexError.text : FromHexError → String
  | .invalidHexCharacter c index => s!"Invalid character '{c}' at position {index}"
  | .oddLength => "Odd number of digits"

def val (c : UInt8) (index : ℕ) : Except FromHexError ℕ :=
  if 48 ≤ c.toNat ∧ c.toNat ≤ 57 then .ok (c.toNat - 48)
  else if 65 ≤ c.toNat ∧ c.toNat ≤ 70 then .ok (c.toNat - 55)
  else if 97 ≤ c.toNat ∧ c.toNat ≤ 102 then .ok (c.toNat - 87)
  else .error (.invalidHexCharacter (Char.ofNat c.toNat) index)

def decodePairs (index : ℕ) : List UInt8 → Except FromHexError (List UInt8)
  | hi :: lo :: rest => do
    let h ← val hi index
    let l ← val lo (index + 1)
    let bytes ← decodePairs (index + 2) rest
    pure (UInt8.ofNat (16 * h + l) :: bytes)
  | _ => .ok []

def utf8 (s : String) : List UInt8 := s.toByteArray.data.toList

def decode (s : String) : Except FromHexError (List UInt8) :=
  if (utf8 s).length % 2 ≠ 0 then .error .oddLength else decodePairs 0 (utf8 s)

variable {n : ℕ} {s : String} {text bytes : List UInt8}

theorem digit_toNat (h : n < 16) : (digit n).toNat = if n < 10 then 48 + n else 87 + n := by
  interval_cases n <;> rfl

theorem utf8EncodeChar_ascii {c : Char} (h : c.toNat < 128) :
    String.utf8EncodeChar c = [UInt8.ofNat c.toNat] := by
  have hval : c.val.toNat ≤ 127 := Nat.lt_succ_iff.mp h
  rw [String.utf8EncodeChar]
  simp only [hval, if_true]
  rfl

theorem utf8_ofList_ascii {cs : List Char} (h : ∀ c ∈ cs, c.toNat < 128) :
    utf8 (String.ofList cs) = cs.map (fun c => UInt8.ofNat c.toNat) := by
  rw [utf8, String.toByteArray_ofList, List.utf8Encode, data_toByteArray, toList_toArray]
  induction cs with
  | nil => rfl
  | cons c cs ih =>
    rw [flatMap_cons, utf8EncodeChar_ascii (h c (by simp)), ih fun d hd => h d (by simp [hd])]
    rfl

theorem utf8_injective {t : String} (h : utf8 s = utf8 t) : s = t := by
  apply String.toByteArray_inj.mp
  exact ByteArray.ext (Array.toList_inj.mp h)

theorem byteDigits_ascii {b : UInt8} {c : Char} (h : c ∈ byteDigits b) : c.toNat < 128 := by
  have hb := b.toNat_lt
  have hcases : ∀ n, n < 16 → (digit n).toNat < 128 := by
    intro n hn
    rw [digit_toNat hn]
    split_ifs <;> omega
  rcases mem_pair.mp h with rfl | rfl
  · exact hcases _ (by omega)
  · exact hcases _ (by omega)

theorem utf8_encode (bytes : List UInt8) :
    utf8 (encode bytes) =
      bytes.flatMap (fun b => (byteDigits b).map fun c => UInt8.ofNat c.toNat) := by
  rw [encode, utf8_ofList_ascii, map_flatMap]
  intro c hc
  obtain ⟨b, -, hb⟩ := mem_flatMap.mp hc
  exact byteDigits_ascii hb

theorem val_digit (h : n < 16) (index : ℕ) : val (UInt8.ofNat (digit n).toNat) index = .ok n := by
  interval_cases n <;> rfl

theorem decodePairs_byteDigits (b : UInt8) (index : ℕ) (rest : List UInt8) :
    decodePairs index (((byteDigits b).map fun c => UInt8.ofNat c.toNat) ++ rest) =
      (decodePairs (index + 2) rest).map (b :: ·) := by
  have hb := b.toNat_lt
  have hjoin : 16 * (b.toNat / 16) + b.toNat % 16 = b.toNat := Nat.div_add_mod _ _
  have hbyte : UInt8.ofNat (16 * (b.toNat / 16) + b.toNat % 16) = b := by
    rw [hjoin, UInt8.ofNat_toNat]
  simp only [byteDigits, map_cons, map_nil, cons_append, nil_append, decodePairs, val_digit (show b.toNat / 16 < 16 by
    omega), val_digit (show b.toNat % 16 < 16 by omega)]
  cases decodePairs (index + 2) rest with
  | error e => rfl
  | ok bytes => exact congrArg (fun x => Except.ok (x :: bytes)) hbyte

theorem decode_encode (bytes : List UInt8) : decode (encode bytes) = .ok bytes := by
  have hlen : (utf8 (encode bytes)).length % 2 = 0 := by
    rw [utf8_encode, length_flatMap]
    simp [byteDigits]
  have hpairs : ∀ index, decodePairs index
      (bytes.flatMap fun b => (byteDigits b).map fun c => UInt8.ofNat c.toNat) = .ok bytes := by
    induction bytes with
    | nil => intro index; rfl
    | cons b bytes ih =>
      intro index
      rw [flatMap_cons, decodePairs_byteDigits, ih]
      · rfl
      · rw [utf8_encode, length_flatMap]
        simp [byteDigits]
  rw [decode, if_neg (by simp [hlen]), utf8_encode, hpairs]

theorem encode_injective {a b : List UInt8} (h : encode a = encode b) : a = b := by
  have hab := decode_encode a
  rw [h, decode_encode] at hab
  exact (Except.ok.inj hab).symm

theorem val_eq_ok {c : UInt8} {index h : ℕ} (hval : val c index = .ok h) :
    c.toNat < 128 ∧ h < 16 ∧ (Char.ofNat c.toNat).toLower = digit h := by
  unfold val at hval
  split_ifs at hval with hdec hup hlow
  · cases hval
    obtain ⟨hlo, hhi⟩ := hdec
    refine ⟨by omega, by omega, ?_⟩
    interval_cases c.toNat <;> rfl
  · cases hval
    obtain ⟨hlo, hhi⟩ := hup
    refine ⟨by omega, by omega, ?_⟩
    interval_cases c.toNat <;> rfl
  · cases hval
    obtain ⟨hlo, hhi⟩ := hlow
    refine ⟨by omega, by omega, ?_⟩
    interval_cases c.toNat <;> rfl

theorem decodePairs_eq_ok {index : ℕ} (hlen : text.length % 2 = 0) (h : decodePairs index text = .ok bytes) :
    (∀ c ∈ text, c.toNat < 128) ∧
      text.map (fun c => (Char.ofNat c.toNat).toLower) = bytes.flatMap byteDigits := by
  induction index, text using decodePairs.induct generalizing bytes with
  | case1 index hi lo rest ih =>
    simp only [decodePairs, bind_eq_ok, pure_eq_ok] at h
    obtain ⟨x, hx, y, hy, tail, htail, rfl⟩ := h
    obtain ⟨hiAscii, hx16, hiDigit⟩ := val_eq_ok hx
    obtain ⟨loAscii, hy16, loDigit⟩ := val_eq_ok hy
    obtain ⟨hascii, hdigits⟩ := ih (by simp at hlen; omega) htail
    have hbyte : (UInt8.ofNat (16 * x + y)).toNat = 16 * x + y :=
      UInt8.toNat_ofNat_of_lt (by simp [UInt8.size]; omega)
    constructor
    · intro c hc
      rcases mem_cons.mp hc with rfl | hc
      · exact hiAscii
      · rcases mem_cons.mp hc with rfl | hc
        · exact loAscii
        · exact hascii c hc
    · have hxq : (16 * x + y) / 16 = x := by omega
      have hyr : (16 * x + y) % 16 = y := by omega
      simp only [map_cons, flatMap_cons, byteDigits, hbyte, hxq, hyr, hiDigit, loDigit,
        hdigits, cons_append, nil_append]
  | case2 text index hshort =>
    cases text with
    | nil =>
      cases h
      simp
    | cons c text =>
      cases text with
      | nil => simp at hlen
      | cons d text => exact absurd rfl (hshort c d text)

theorem toLower_of_decode (h : decode s = .ok bytes) : s.toLower = encode bytes := by
  unfold decode at h
  split_ifs at h with hodd
  obtain ⟨hascii, hdigits⟩ := decodePairs_eq_ok (by simpa using hodd) h
  have hround : ∀ c ∈ utf8 s, (Char.ofNat c.toNat).toNat = c.toNat := by
    intro c hc
    have hc128 := hascii c hc
    interval_cases c.toNat <;> rfl
  have htext : s = String.ofList ((utf8 s).map fun c => Char.ofNat c.toNat) := by
    apply utf8_injective
    rw [utf8_ofList_ascii]
    · rw [map_map, map_congr_left (g := id), map_id]
      intro c hc
      simp [hround c hc]
    · intro c hc
      obtain ⟨b, hb, rfl⟩ := mem_map.mp hc
      rw [hround b hb]
      exact hascii b hb
  apply String.toList_inj.mp
  rw [String.toLower, String.toList_map, encode, String.toList_ofList, ← hdigits]
  conv_lhs => rw [htext, String.toList_ofList]
  rw [map_map]
  rfl

theorem utf8_append (a b : String) : utf8 (a ++ b) = utf8 a ++ utf8 b := by
  rw [utf8, String.toByteArray_append, ByteArray.data_append, Array.toList_append]
  rfl

theorem val_at {c : UInt8} {i : ℕ} (h : val c i = .ok n) (j : ℕ) : val c j = .ok n := by
  unfold val at h ⊢
  split_ifs at h ⊢ <;> exact h

theorem decodePairs_at {i : ℕ} (h : decodePairs i text = .ok bytes) (j : ℕ) : decodePairs j text = .ok bytes := by
  induction i, text using decodePairs.induct generalizing j bytes with
  | case1 i hi lo rest ih =>
    simp only [decodePairs, bind_eq_ok, pure_eq_ok] at h ⊢
    obtain ⟨x, hx, y, hy, tail, htail, rfl⟩ := h
    exact ⟨x, val_at hx _, y, val_at hy _, tail, ih htail _, rfl⟩
  | case2 text i hshort =>
    rw [decodePairs.eq_2 _ _ hshort] at h ⊢
    exact h

theorem decodePairs_append {i : ℕ} {rest x y : List UInt8} (heven : text.length % 2 = 0)
    (hx : decodePairs i text = .ok x) (hy : decodePairs i rest = .ok y) :
    decodePairs i (text ++ rest) = .ok (x ++ y) := by
  induction i, text using decodePairs.induct generalizing x with
  | case1 i hi lo text ih =>
    simp only [decodePairs, bind_eq_ok, pure_eq_ok, cons_append] at hx ⊢
    obtain ⟨a, ha, b, hb, tail, htail, rfl⟩ := hx
    have hlen : text.length % 2 = 0 := by simp at heven; omega
    exact ⟨a, ha, b, hb, tail ++ y, ih hlen htail (decodePairs_at hy _), rfl⟩
  | case2 text i hshort =>
    cases text with
    | nil =>
      cases hx
      exact hy
    | cons c text =>
      cases text with
      | nil => simp at heven
      | cons d text => exact absurd rfl (hshort c d text)

theorem decode_append {a b : String} {x y : List UInt8} (ha : decode a = .ok x) (hb : decode b = .ok y) :
    decode (a ++ b) = .ok (x ++ y) := by
  unfold decode at ha hb
  split_ifs at ha hb with hodd hodd'
  rw [decode, utf8_append, if_neg (by rw [length_append]; omega)]
  exact decodePairs_append (by omega) ha hb

theorem length_of_decode (h : decode s = .ok bytes) : (utf8 s).length = 2 * bytes.length := by
  unfold decode at h
  split_ifs at h with hodd
  have hdigits := congrArg List.length (decodePairs_eq_ok (by simpa using hodd) h).2
  rw [length_map, length_flatMap] at hdigits
  simpa [byteDigits, Nat.mul_comm] using hdigits

theorem digit_lt_iff {m : ℕ} (hm : m < 16) (hn : n < 16) : digit m < digit n ↔ m < n := by
  rw [Char.lt_def, UInt32.lt_iff_toNat_lt]
  change (digit m).toNat < (digit n).toNat ↔ m < n
  rw [digit_toNat hm, digit_toNat hn]
  split_ifs <;> omega

theorem digit_inj {m : ℕ} (hm : m < 16) (hn : n < 16) : digit m = digit n ↔ m = n := by
  constructor
  · intro h
    have hval := congrArg Char.toNat h
    rw [digit_toNat hm, digit_toNat hn] at hval
    split_ifs at hval <;> omega
  · exact congrArg digit

theorem compare_lt_iff_encode_lt (a b : List UInt8) : compare a b = .lt ↔ encode a < encode b := by
  rw [String.lt_iff_toList_lt, encode, encode, String.toList_ofList, String.toList_ofList]
  change List.compareLex compare a b = .lt ↔ _
  induction a generalizing b with
  | nil =>
    cases b with
    | nil => simp [List.compareLex]
    | cons y b => simp [List.compareLex, byteDigits]
  | cons x a ih =>
    cases b with
    | nil => simp [List.compareLex, byteDigits]
    | cons y b =>
      have hx := x.toNat_lt
      have hy := y.toNat_lt
      rw [List.compareLex_cons_cons, Ordering.then_eq_lt, ih]
      simp only [flatMap_cons, byteDigits, cons_append, nil_append, cons_lt_cons_iff, digit_lt_iff (show x.toNat / 16
        < 16 by omega) (show y.toNat / 16 < 16 by omega), digit_lt_iff (show x.toNat % 16 < 16 by omega) (show y.toNat
        % 16 < 16 by omega), digit_inj (show x.toNat / 16 < 16 by omega) (show y.toNat / 16 < 16 by omega), digit_inj
        (show x.toNat % 16 < 16 by omega) (show y.toNat % 16 < 16 by omega)]
      rw [Std.compare_eq_lt, Std.compare_eq_iff_eq, UInt8.lt_iff_toNat_lt, ← UInt8.toNat_inj]
      by_cases hrest : a.flatMap byteDigits < b.flatMap byteDigits <;>
        simp only [hrest, and_true, and_false, or_false] <;> omega

theorem compare_encode (a b : List UInt8) : compare (encode a) (encode b) = compare a b := by
  cases h : compare a b with
  | lt => exact compare_lt_iff_lt.mpr ((compare_lt_iff_encode_lt a b).mp h)
  | eq => exact compare_eq_iff_eq.mpr (congrArg encode (Std.LawfulEqCmp.eq_of_compare h))
  | gt =>
    have hba : compare b a = .lt := Std.OrientedCmp.lt_of_gt h
    exact compare_gt_iff_gt.mpr ((compare_lt_iff_encode_lt b a).mp hba)

end Hex
