import Mathlib
import QbitPrism.Lib.MachineInt

/-!
# JSON decimals

The number grammar of JSON, with the text of a number, the number of a text and the rational it stands
for, and the standard text functions a program takes such a text apart with.
-/
namespace Decimal
open MachineInt List

def digitsValue (chars : List Char) : ℕ := Nat.ofDigitChars 10 chars 0

@[ext]
structure Digits where
  chars : List Char
  ne_nil : chars ≠ []
  isDigit : ∀ c ∈ chars, c.isDigit = true
  deriving DecidableEq

inductive Sign where
  | plus
  | minus
  deriving DecidableEq

inductive ExponentMark where
  | lower
  | upper
  deriving DecidableEq

structure Exponent where
  mark : ExponentMark
  sign : Option Sign
  digits : Digits
  deriving DecidableEq

/-- A number; only the number zero starts its whole part with a zero. -/
structure Number where
  negative : Bool
  whole : Digits
  leading : whole.chars.head? = some '0' → whole.chars = ['0']
  fraction : Option Digits
  exponent : Option Exponent
  deriving DecidableEq

def Sign.char : Sign → Char
  | plus => '+'
  | minus => '-'

def ExponentMark.char : ExponentMark → Char
  | lower => 'e'
  | upper => 'E'

def Exponent.tail (exponent : Exponent) : List Char := exponent.sign.toList.map Sign.char ++ exponent.digits.chars

def Exponent.text (exponent : Exponent) : List Char := exponent.mark.char :: exponent.tail

def Exponent.value (exponent : Exponent) : ℤ :=
  if exponent.sign = some .minus then -digitsValue exponent.digits.chars else digitsValue exponent.digits.chars

namespace Number

def fractionChars (n : Number) : List Char := n.fraction.elim [] Digits.chars

def unsignedMantissa (n : Number) : List Char :=
  n.whole.chars ++ n.fraction.elim [] fun fraction => '.' :: fraction.chars

def mantissa (n : Number) : List Char := (if n.negative then ['-'] else []) ++ n.unsignedMantissa

def text (n : Number) : List Char := n.mantissa ++ n.exponent.elim [] Exponent.text

def exponentValue (n : Number) : ℤ := n.exponent.elim 0 Exponent.value

def coefficient (n : Number) : ℕ := digitsValue (n.whole.chars ++ n.fractionChars)

def value (n : Number) : ℚ :=
  (if n.negative then -1 else 1) * (n.coefficient * 10 ^ (n.exponentValue - n.fractionChars.length))

end Number

def parseDigits (text : List Char) : Option (Digits × List Char) :=
  if h : text.takeWhile Char.isDigit ≠ [] then
    some (⟨text.takeWhile Char.isDigit, h, fun _ hc => mem_takeWhile_imp hc⟩, text.dropWhile Char.isDigit)
  else none

def parseFraction : List Char → Option (Option Digits × List Char)
  | '.' :: text => (parseDigits text).map fun (digits, rest) => (some digits, rest)
  | text => some (none, text)

def parseSign : List Char → Option Sign × List Char
  | '+' :: text => (some .plus, text)
  | '-' :: text => (some .minus, text)
  | text => (none, text)

def parseMarked (mark : ExponentMark) (text : List Char) : Option (Option Exponent × List Char) :=
  (parseDigits (parseSign text).2).map fun (digits, rest) => (some ⟨mark, (parseSign text).1, digits⟩, rest)

def parseExponent : List Char → Option (Option Exponent × List Char)
  | 'e' :: text => parseMarked .lower text
  | 'E' :: text => parseMarked .upper text
  | text => some (none, text)

def parseUnsigned (negative : Bool) (text : List Char) : Option Number := do
  let (whole, text) ← parseDigits text
  let (fraction, text) ← parseFraction text
  let (exponent, text) ← parseExponent text
  if h : whole.chars.head? = some '0' → whole.chars = ['0'] then
    if text = [] then some ⟨negative, whole, h, fraction, exponent⟩ else none
  else none

def parse : List Char → Option Number
  | '-' :: text => parseUnsigned true text
  | text => parseUnsigned false text

variable {text rest : List Char}

def EndsDigits (rest : List Char) : Prop := ∀ c ∈ rest.head?, c.isDigit = false

theorem parseDigits_append (digits : Digits) (hrest : EndsDigits rest) :
    parseDigits (digits.chars ++ rest) = some (digits, rest) := by
  have hdrop : rest.takeWhile Char.isDigit = [] ∧ rest.dropWhile Char.isDigit = rest := by
    cases rest with
    | nil => exact ⟨rfl, rfl⟩
    | cons c rest =>
      have hc : c.isDigit = false := hrest c rfl
      simp [hc]
  have htake : (digits.chars ++ rest).takeWhile Char.isDigit = digits.chars := by
    rw [takeWhile_append_of_pos digits.isDigit, hdrop.1, append_nil]
  unfold parseDigits
  rw [dif_pos (by rw [htake]; exact digits.ne_nil)]
  simp only [htake, dropWhile_append_of_pos digits.isDigit, hdrop.2]

theorem parseDigits_eq_some {digits : Digits} (h : parseDigits text = some (digits, rest)) :
    digits.chars ++ rest = text := by
  unfold parseDigits at h
  split_ifs at h
  cases h
  exact takeWhile_append_dropWhile

theorem parseFraction_append (fraction : Option Digits) (hrest : EndsDigits rest) (hdot : rest.head? ≠ some '.') :
    parseFraction ((fraction.elim [] fun digits => '.' :: digits.chars) ++ rest) = some (fraction, rest) := by
  cases fraction with
  | none =>
    rw [Option.elim_none, nil_append]
    unfold parseFraction
    split
    · exact absurd rfl hdot
    · rfl
  | some digits =>
    have hdigits : parseFraction ('.' :: (digits.chars ++ rest)) =
      (parseDigits (digits.chars ++ rest)).map fun (digits, rest) => (some digits, rest) := rfl
    rw [Option.elim_some, cons_append, hdigits, parseDigits_append digits hrest, Option.map_some]

theorem parseFraction_eq_some {fraction : Option Digits} (h : parseFraction text = some (fraction, rest)) :
    (fraction.elim [] fun digits => '.' :: digits.chars) ++ rest = text := by
  unfold parseFraction at h
  split at h
  · obtain ⟨⟨digits, tail⟩, hdigits, hpair⟩ := Option.map_eq_some_iff.mp h
    cases hpair
    rw [Option.elim_some, cons_append, parseDigits_eq_some hdigits]
  · cases h
    rfl

theorem parseSign_append (sign : Option Sign) (digits : Digits) :
    parseSign (sign.toList.map Sign.char ++ (digits.chars ++ rest)) = (sign, digits.chars ++ rest) := by
  cases sign with
  | some sign => cases sign <;> rfl
  | none =>
    obtain ⟨c, chars, hchars⟩ := exists_cons_of_ne_nil digits.ne_nil
    have hdigit : c.isDigit = true := digits.isDigit c (hchars ▸ mem_cons_self)
    rw [Option.toList_none, map_nil, nil_append, hchars]
    unfold parseSign
    split
    · next heq =>
        cases heq
        exact absurd hdigit (by decide)
    · next heq =>
        cases heq
        exact absurd hdigit (by decide)
    · rfl

theorem parseSign_eq (text : List Char) :
    (parseSign text).1.toList.map Sign.char ++ (parseSign text).2 = text := by
  unfold parseSign
  split <;> rfl

theorem parseMarked_append (exponent : Exponent) (hrest : EndsDigits rest) :
    parseMarked exponent.mark (exponent.tail ++ rest) = some (some exponent, rest) := by
  unfold parseMarked Exponent.tail
  rw [append_assoc, parseSign_append, parseDigits_append exponent.digits hrest, Option.map_some]

variable {exponent : Option Exponent} {c : Char} {chars : List Char}

theorem parseMarked_eq_some {mark : ExponentMark} (h : parseMarked mark text = some (exponent, rest)) :
    exponent.elim [] Exponent.text ++ rest = mark.char :: text := by
  obtain ⟨⟨digits, tail⟩, hdigits, hpair⟩ := Option.map_eq_some_iff.mp h
  cases hpair
  rw [Option.elim_some, Exponent.text, cons_append, Exponent.tail, append_assoc,
    parseDigits_eq_some hdigits, parseSign_eq]

theorem parseExponent_text (exponent : Option Exponent) :
    parseExponent (exponent.elim [] Exponent.text) = some (exponent, []) := by
  cases exponent with
  | none => rfl
  | some exponent =>
    have h := @parseMarked_append [] exponent (by simp [EndsDigits])
    rw [append_nil] at h
    rw [Option.elim_some, Exponent.text, ← h]
    cases exponent.mark <;> rfl

theorem parseExponent_eq_some (h : parseExponent text = some (exponent, rest)) :
    exponent.elim [] Exponent.text ++ rest = text := by
  unfold parseExponent at h
  split at h
  · exact parseMarked_eq_some h
  · exact parseMarked_eq_some h
  · cases h
    rfl

theorem endsDigits_exponent (exponent : Option Exponent) :
    EndsDigits (exponent.elim [] Exponent.text) ∧ (exponent.elim [] Exponent.text).head? ≠ some '.' := by
  cases exponent with
  | none => simp [EndsDigits]
  | some exponent =>
    rw [Option.elim_some, Exponent.text, EndsDigits, List.head?_cons]
    cases exponent.mark <;> simp [ExponentMark.char]

theorem parseUnsigned_text (n : Number) :
    parseUnsigned n.negative (n.unsignedMantissa ++ n.exponent.elim [] Exponent.text) = some n := by
  obtain ⟨hends, hdot⟩ := endsDigits_exponent n.exponent
  have hfraction : EndsDigits ((n.fraction.elim [] fun digits => '.' :: digits.chars) ++
      n.exponent.elim [] Exponent.text) := by
    cases n.fraction with
    | none => exact hends
    | some digits => simp [EndsDigits]
  unfold parseUnsigned Number.unsignedMantissa
  simp only [append_assoc, parseDigits_append n.whole hfraction, parseFraction_append n.fraction hends hdot,
    parseExponent_text, Option.bind_eq_bind, Option.bind_some]
  rw [dif_pos n.leading, if_pos trivial]

theorem parse_text (n : Number) : parse n.text = some n := by
  rw [← parseUnsigned_text n]
  unfold Number.text Number.mantissa
  cases hnegative : n.negative with
  | true => rfl
  | false =>
    obtain ⟨c, chars, hchars⟩ := exists_cons_of_ne_nil n.whole.ne_nil
    have hdigit : c.isDigit = true := n.whole.isDigit c (hchars ▸ mem_cons_self)
    rw [if_neg Bool.false_ne_true, nil_append, Number.unsignedMantissa, hchars, cons_append, cons_append]
    unfold parse
    split
    · next heq =>
        cases heq
        exact absurd hdigit (by decide)
    · rfl

theorem text_of_parse {n : Number} (h : parse text = some n) : n.text = text := by
  have hunsigned : ∀ negative text, parseUnsigned negative text = some n →
      n.negative = negative ∧ n.unsignedMantissa ++ n.exponent.elim [] Exponent.text = text := by
    intro negative text h
    unfold parseUnsigned at h
    simp only [Option.bind_eq_bind, Option.bind_eq_some_iff] at h
    obtain ⟨⟨whole, rest⟩, hwhole, ⟨fraction, rest'⟩, hfraction, ⟨exponent, rest''⟩, hexponent, h⟩ := h
    dsimp only at hfraction hexponent h
    split_ifs at h with hleading hend
    cases h
    subst hend
    refine ⟨rfl, ?_⟩
    rw [← parseDigits_eq_some hwhole, ← parseFraction_eq_some hfraction, ← parseExponent_eq_some hexponent,
      Number.unsignedMantissa, append_nil, append_assoc]
  unfold parse at h
  split at h
  · obtain ⟨hnegative, htext⟩ := hunsigned _ _ h
    rw [← htext, Number.text, Number.mantissa, if_pos hnegative, append_assoc, singleton_append]
  · obtain ⟨hnegative, htext⟩ := hunsigned _ _ h
    rw [← htext, Number.text, Number.mantissa, hnegative, if_neg Bool.false_ne_true, nil_append]

/-- The text before the first character that satisfies `p`, and the text after it. -/
def splitOnce (p : Char → Bool) (text : List Char) : Option (List Char × List Char) :=
  match text.dropWhile (!p ·) with
  | [] => none
  | _ :: rest => some (text.takeWhile (!p ·), rest)

theorem splitOnce_append {p : Char → Bool} {front : List Char} (hfront : ∀ a ∈ front, p a = false) (hc : p c = true) :
    splitOnce p (front ++ c :: rest) = some (front, rest) := by
  have hnot : ∀ a ∈ front, (!p a) = true := fun a ha => by rw [hfront a ha, Bool.not_false]
  unfold splitOnce
  rw [dropWhile_append_of_pos hnot, takeWhile_append_of_pos hnot]
  simp [hc]

theorem splitOnce_none {p : Char → Bool} (h : ∀ a ∈ text, p a = false) : splitOnce p text = none := by
  unfold splitOnce
  rw [dropWhile_eq_nil_iff.mpr fun a ha => by rw [h a ha, Bool.not_false]]

def parseNatural (text : List Char) : Option ℕ :=
  if text ≠ [] ∧ text.all Char.isDigit then some (digitsValue text) else none

theorem parseNatural_digits (digits : Digits) : parseNatural digits.chars = some (digitsValue digits.chars) :=
  if_pos ⟨digits.ne_nil, all_eq_true.mpr digits.isDigit⟩

/-- Read a signed integer of `w` bits. -/
def parseSigned (w : ℕ) (text : List Char) : Option (Signed w) :=
  (parseNatural (parseSign text).2).bind fun magnitude =>
    Signed.ofInt? (if (parseSign text).1 = some .minus then -magnitude else magnitude)

theorem parseSigned_tail (w : ℕ) (exponent : Exponent) :
    parseSigned w exponent.tail = Signed.ofInt? exponent.value := by
  have hsign := @parseSign_append [] exponent.sign exponent.digits
  rw [append_nil] at hsign
  unfold parseSigned Exponent.tail
  rw [hsign, parseNatural_digits, Option.bind_some]
  rfl

theorem ne_of_isDigit {other : Char} (hc : c.isDigit = true) (hother : other.isDigit = false) : c ≠ other := by
  rintro rfl
  rw [hc] at hother
  cases hother

theorem digitsValue_cons (c : Char) (chars : List Char) :
    digitsValue (c :: chars) = 10 ^ chars.length * (c.toNat - '0'.toNat) + digitsValue chars := by
  unfold digitsValue
  rw [Nat.ofDigitChars_cons, Nat.mul_zero, Nat.zero_add, Nat.ofDigitChars_eq_ofDigitChars_zero]

theorem isDigit_toNat (h : c.isDigit = true) : '0'.toNat ≤ c.toNat ∧ c.toNat ≤ '9'.toNat := by
  rw [Char.isDigit, Bool.and_eq_true, decide_eq_true_eq, decide_eq_true_eq] at h
  exact h

theorem digitsValue_lt (h : ∀ c ∈ chars, c.isDigit = true) : digitsValue chars < 10 ^ chars.length := by
  induction chars with
  | nil => exact Nat.one_pos
  | cons c chars ih =>
    have hrest := ih fun a ha => h a (mem_cons_of_mem c ha)
    have hc : c.toNat - '0'.toNat ≤ 9 := by
      have := (isDigit_toNat (h c mem_cons_self)).2
      change c.toNat ≤ 57 at this
      change c.toNat - 48 ≤ 9
      omega
    rw [digitsValue_cons, length_cons, pow_succ]
    calc 10 ^ chars.length * (c.toNat - '0'.toNat) + digitsValue chars
        < 10 ^ chars.length * 9 + 10 ^ chars.length := Nat.add_lt_add_of_le_of_lt (Nat.mul_le_mul_left _ hc) hrest
      _ = 10 ^ chars.length * 10 := by ring

def significant (chars : List Char) : List Char := chars.dropWhile (· = '0')

theorem digitsValue_significant (chars : List Char) : digitsValue (significant chars) = digitsValue chars := by
  induction chars with
  | nil => rfl
  | cons c chars ih =>
    unfold significant at ih ⊢
    by_cases hc : c = '0'
    · subst hc
      rw [dropWhile_cons_of_pos (by decide), ih, digitsValue_cons, Nat.sub_self, Nat.mul_zero, Nat.zero_add]
    · rw [dropWhile_cons_of_neg (by simpa using hc)]

theorem isDigit_significant (h : ∀ c ∈ chars, c.isDigit = true) : ∀ c ∈ significant chars, c.isDigit = true :=
  fun c hc => h c ((dropWhile_sublist _).subset hc)

theorem le_digitsValue_significant (h : ∀ c ∈ chars, c.isDigit = true) (hne : significant chars ≠ []) :
    10 ^ ((significant chars).length - 1) ≤ digitsValue (significant chars) := by
  obtain ⟨c, rest, hchars⟩ := exists_cons_of_ne_nil hne
  have hzero : c ≠ '0' := by
    have hhead := head_dropWhile_not (fun c => decide (c = '0')) hne
    simpa only [show chars.dropWhile (fun c => decide (c = '0')) = c :: rest from hchars, head_cons,
      decide_eq_false_iff_not] using hhead
  have hdigit : '0'.toNat ≤ c.toNat :=
    (isDigit_toNat (isDigit_significant h c (hchars ▸ mem_cons_self))).1
  have hvalue : c.toNat ≠ '0'.toNat := fun heq => hzero (Char.toNat_inj.mp heq)
  have hpositive : 1 ≤ c.toNat - '0'.toNat := by omega
  rw [hchars, digitsValue_cons, length_cons, Nat.add_sub_cancel]
  calc 10 ^ rest.length = 10 ^ rest.length * 1 := (Nat.mul_one _).symm
    _ ≤ 10 ^ rest.length * (c.toNat - '0'.toNat) := Nat.mul_le_mul_left _ hpositive
    _ ≤ _ := Nat.le_add_right _ _

theorem significant_eq_nil (h : ∀ c ∈ chars, c.isDigit = true) : significant chars = [] ↔ digitsValue chars = 0 := by
  constructor
  · intro hnil
    rw [← digitsValue_significant, hnil]
    rfl
  · intro hzero
    by_contra hne
    have hle := le_digitsValue_significant h hne
    rw [digitsValue_significant, hzero] at hle
    exact absurd hle (Nat.not_le.mpr (Nat.pow_pos (by decide)))

end Decimal
