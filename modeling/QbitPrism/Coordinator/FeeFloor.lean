import Mathlib
import QbitPrism.Lib.Decimal
import QbitPrism.Settlement.Fee

/-!
# Fee decimals and the relay floor

The node's fee rates and amounts arrive as JSON decimals. A rate is turned into bits per 1000 weight by
digit counting, rounded up; an amount is turned into bits exactly or refused. The fee policy is checked
against the higher of the node's two floors. Reading a JSON number follows the JSON grammar, and a number
keeps its text (arbitrary precision).
-/
namespace QbitPrism
open MachineInt Checked Decimal List

/-- A JSON value, as far as the fee code tells them apart. -/
inductive RpcValue where
  | null
  | number (n : Number)
  | string (text : List Char)
  | other
  deriving DecidableEq

def byteLen (text : List Char) : ℕ := (text.map Char.utf8Size).sum

def isExponentMark (c : Char) : Bool := c = 'e' || c = 'E'

def ceilAmount (significant : List Char) (power : I64) : Except String U64 :=
  let coefficient := digitsValue significant
  if 0 ≤ power.val then do
    require (power.val ≤ 19 ∧ significant.length + power.val ≤ 20) "CTV fee rate overflow"
    okOr (Unsigned.ofNat? (coefficient * 10 ^ power.val.toNat)) "CTV fee rate overflow"
  else
    let places := power.val.natAbs
    if significant.length ≤ places then .ok 1
    else
      let divisor := 10 ^ places
      okOr (Unsigned.ofNat? ((coefficient + divisor - 1) / divisor)) "CTV fee rate overflow"

def splitExponent (decimal : List Char) : Except String (List Char × I64) :=
  match splitOnce isExponentMark decimal with
  | some (mantissa, exponent) => do
    let exponent ← okOr (parseSigned 64 exponent) "CTV fee exponent overflow"
    pure (mantissa, exponent)
  | none => .ok (decimal, 0)

def splitMantissa (mantissa : List Char) : List Char × List Char :=
  (splitOnce (· = '.') mantissa).getD (mantissa, [])

def RpcValue.text? : RpcValue → Option (List Char)
  | number n => some n.text
  | string text => some text
  | _ => none

def decimalBits (decimal : List Char) : Except String U64 := do
  require (decimal.head? ≠ some '-') "CTV market fee estimate must be positive"
  let (mantissa, exponent) ← splitExponent decimal
  let (whole, fraction) := splitMantissa mantissa
  let significant := significant (whole ++ fraction)
  require (significant ≠ []) "CTV market fee estimate must be positive"
  let power ← okOr ((exponent.checkedAdd 8).bind (·.checkedSub (.wrapping fraction.length)))
    "CTV fee exponent overflow"
  ceilAmount significant power

def feeEstimateBits (value : RpcValue) : Except String U64 := do
  let text ← okOr value.text? "invalid CTV market fee estimate"
  require (byteLen text ≤ 4096) "CTV fee estimate exceeds decimal length limit"
  let number ← okOr (parse text) "invalid CTV market fee decimal"
  decimalBits number.text

def higherFloor (name : String) (value : Option RpcValue) (requiredRate : Option U64) :
    Except String (Option U64) :=
  match value.filter (· ≠ .null) with
  | none => .ok requiredRate
  | some value => do
    let floor ← (feeEstimateBits value).mapError fun _ => s!"invalid getmempoolinfo.{name} fee floor"
    pure (some (requiredRate.elim floor fun current => if current.val ≤ floor.val then floor else current))

/-- What a `getmempoolinfo` object reports of the floors. -/
structure MempoolInfo where
  minrelaytxfee : Option RpcValue
  mempoolminfee : Option RpcValue

/-- `none` is a reply that is no object. -/
def relayFeeFloor (mempool : Option MempoolInfo) : Except String U64 := do
  let mempool ← okOr mempool "getmempoolinfo returned non-object"
  let requiredRate ← higherFloor "minrelaytxfee" mempool.minrelaytxfee none
  let requiredRate ← higherFloor "mempoolminfee" mempool.mempoolminfee requiredRate
  okOr requiredRate "getmempoolinfo did not report a relay fee floor"

def validateFeeFloor (policy : FanoutFeeRatePolicy) (requiredRate : U64) : Except String Unit := do
  require (requiredRate.val ≤ policy.marketFeeRateSatsPer1000Weight.val)
    s!"PRISM CTV fanout fee rate is below the connected node relay floor: configured={policy.marketFeeRateSatsPer1000Weight.val} required={requiredRate.val} bits/1000 weight"
  -- a premium below 10000 lowers the rate; the products fit 128 bits
  require (requiredRate.val * 10000 ≤ policy.marketFeeRateSatsPer1000Weight.val * policy.premiumBps.val)
    "PRISM CTV fanout fee premium reduces the effective fee below the connected node relay floor"

def splitAmountExponent (text : List Char) : List Char × Signed 32 :=
  match splitOnce isExponentMark text with
  | some (mantissa, exponent) => (mantissa, (parseSigned 32 exponent).getD ⟨-2 ^ 31, by decide, by decide⟩)
  | none => (text, 0)

def exactAmount (digits : U128) (power : Signed 32) : Except String U128 :=
  if 0 ≤ power.val then
    okOr (digits.checkedMul (.wrapping (10 ^ power.val.toNat))) "monetary value overflow"
  else do
    let divisor := 10 ^ (-power.val).toNat
    require (digits.val % divisor = 0) "monetary value has sub-bit precision"
    pure (.wrapping (digits.val / divisor))

def amountBits (value : RpcValue) : Except String U64 := do
  let text ← okOr value.text? "invalid monetary value"
  let (mantissa, exponent) := splitAmountExponent text
  let (whole, fraction) := splitMantissa mantissa
  require ((whole ++ fraction).all Char.isDigit) "invalid monetary decimal"
  require (whole ++ fraction ≠ []) "cannot parse integer from empty string"
  let digits ← okOr (Unsigned.ofNat? (digitsValue (whole ++ fraction))) "number too large to fit in target type"
  let power ← okOr ((Signed.checkedAdd 8 exponent).bind (·.checkedSub (.wrapping fraction.length)))
    "monetary exponent overflow"
  require (-38 ≤ power.val ∧ power.val ≤ 38) "monetary exponent out of bounds"
  let amount ← exactAmount digits power
  okOr (Unsigned.ofNat? amount.val) "out of range integral type conversion attempted"

section Parts
variable (n : Number)

variable {c : Char}

theorem not_isExponentMark_of_isDigit (h : c.isDigit = true) : isExponentMark c = false := by
  simp [isExponentMark, ne_of_isDigit h (show 'e'.isDigit = false by decide),
    ne_of_isDigit h (show 'E'.isDigit = false by decide)]

theorem mem_unsignedMantissa (h : c ∈ n.unsignedMantissa) : c.isDigit = true ∨ c = '.' := by
  rcases mem_append.mp h with hwhole | hfraction
  · exact .inl (n.whole.isDigit c hwhole)
  · cases hpart : n.fraction with
    | none =>
      rw [hpart] at hfraction
      cases hfraction
    | some digits =>
      rw [hpart] at hfraction
      exact (mem_cons.mp hfraction).symm.imp_left (digits.isDigit c)

theorem mem_mantissa (h : c ∈ n.mantissa) : c.isDigit = true ∨ c = '.' ∨ c = '-' := by
  rcases mem_append.mp h with hsign | hunsigned
  · split_ifs at hsign
    · exact .inr (.inr (mem_singleton.mp hsign))
    · cases hsign
  · exact (mem_unsignedMantissa n hunsigned).imp_right .inl

theorem splitOnce_text :
    splitOnce isExponentMark n.text = n.exponent.map fun exponent => (n.mantissa, exponent.tail) := by
  have hmantissa : ∀ c ∈ n.mantissa, isExponentMark c = false := by
    intro c hc
    rcases mem_mantissa n hc with hdigit | rfl | rfl
    · exact not_isExponentMark_of_isDigit hdigit
    · rfl
    · rfl
  unfold Number.text
  cases n.exponent with
  | none =>
    rw [Option.elim_none, append_nil]
    exact splitOnce_none hmantissa
  | some exponent =>
    refine splitOnce_append hmantissa ?_
    cases exponent.mark <;> rfl

theorem splitMantissa_mantissa :
    splitMantissa n.mantissa = ((if n.negative then ['-'] else []) ++ n.whole.chars, n.fractionChars) := by
  have hwhole : ∀ c ∈ (if n.negative then ['-'] else []) ++ n.whole.chars, decide (c = '.') = false := by
    intro c hc
    rcases mem_append.mp hc with hsign | hc
    · split_ifs at hsign
      · rw [mem_singleton.mp hsign]
        decide
      · cases hsign
    · exact decide_eq_false (ne_of_isDigit (n.whole.isDigit c hc) (by decide))
  unfold splitMantissa Number.mantissa Number.unsignedMantissa Number.fractionChars
  rw [← append_assoc]
  cases n.fraction with
  | none =>
    rw [Option.elim_none, append_nil, splitOnce_none hwhole]
    rfl
  | some digits =>
    rw [Option.elim_some, splitOnce_append hwhole (by decide)]
    rfl

theorem splitMantissa_of_nonneg (h : n.negative = false) :
    splitMantissa n.mantissa = (n.whole.chars, n.fractionChars) := by
  rw [splitMantissa_mantissa, h, if_neg Bool.false_ne_true, nil_append]

theorem isDigit_digits : ∀ c ∈ n.whole.chars ++ n.fractionChars, c.isDigit = true := by
  intro c hc
  rcases mem_append.mp hc with hwhole | hfraction
  · exact n.whole.isDigit c hwhole
  · unfold Number.fractionChars at hfraction
    cases hpart : n.fraction with
    | none =>
      rw [hpart] at hfraction
      cases hfraction
    | some digits =>
      rw [hpart] at hfraction
      exact digits.isDigit c hfraction

theorem head_text : n.text.head? = some '-' ↔ n.negative = true := by
  unfold Number.text Number.mantissa
  cases n.negative with
  | true => simp
  | false =>
    obtain ⟨c, chars, hchars⟩ := exists_cons_of_ne_nil n.whole.ne_nil
    have hdigit : c.isDigit = true := n.whole.isDigit c (hchars ▸ mem_cons_self)
    have hminus : c ≠ '-' := ne_of_isDigit hdigit (by decide)
    simp [Number.unsignedMantissa, hchars, hminus]

theorem length_digits_le : n.whole.chars.length + n.fractionChars.length ≤ n.text.length := by
  have hmantissa : n.whole.chars.length + n.fractionChars.length ≤ n.unsignedMantissa.length := by
    unfold Number.fractionChars Number.unsignedMantissa
    rw [length_append]
    cases n.fraction with
    | none => exact le_rfl
    | some digits => exact Nat.add_le_add_left (Nat.le_succ _) _
  unfold Number.text Number.mantissa
  rw [length_append, length_append]
  omega

theorem splitExponent_text {mantissa : List Char} {exponent : I64} :
    splitExponent n.text = .ok (mantissa, exponent) ↔ mantissa = n.mantissa ∧ exponent.val = n.exponentValue := by
  unfold splitExponent Number.exponentValue
  rw [splitOnce_text]
  cases hpart : n.exponent with
  | none =>
    have htext : n.text = n.mantissa := by
      rw [Number.text, hpart, Option.elim_none, append_nil]
    rw [Option.map_none, Option.elim_none, htext, Except.ok.injEq, Prod.mk.injEq]
    refine and_congr eq_comm ⟨?_, fun h => Signed.ext (h.trans Signed.val_zero.symm) |>.symm⟩
    rintro rfl
    exact Signed.val_zero
  | some part =>
    simp only [Option.map_some, Option.elim_some, bind_eq_ok, okOr_eq_ok, pure_eq_ok, parseSigned_tail,
      Signed.ofInt?_eq_some, Prod.mk.injEq]
    constructor
    · rintro ⟨value, hvalue, rfl, rfl⟩
      exact ⟨rfl, hvalue⟩
    · rintro ⟨rfl, hvalue⟩
      exact ⟨exponent, hvalue, rfl, rfl⟩

end Parts

theorem ceil_div (coefficient : ℕ) {divisor : ℕ} (h : 0 < divisor) :
    ⌈(coefficient : ℚ) / divisor⌉ = ((coefficient + divisor - 1) / divisor : ℕ) := by
  have hpos : (0 : ℚ) < divisor := Nat.cast_pos.mpr h
  set quotient := (coefficient + divisor - 1) / divisor with hquotient
  have hupper : coefficient ≤ quotient * divisor := by
    have hnext := Nat.lt_div_mul_add h (a := coefficient + divisor - 1)
    rw [← hquotient] at hnext
    omega
  have hlower : quotient * divisor < coefficient + divisor := by
    have hle := Nat.div_mul_le_self (coefficient + divisor - 1) divisor
    rw [← hquotient] at hle
    omega
  rw [Int.ceil_eq_iff]
  constructor
  · rw [lt_div_iff₀ hpos, Int.cast_natCast, sub_mul, one_mul, sub_lt_iff_lt_add]
    exact_mod_cast hlower
  · rw [div_le_iff₀ hpos, Int.cast_natCast]
    exact_mod_cast hupper

variable {coefficient : ℕ} {power : ℤ}

theorem ceil_eq_one (hpos : 0 < coefficient) {length : ℕ} (hlt : coefficient < 10 ^ length)
    (hpower : power + length ≤ 0) : ⌈(coefficient : ℚ) * 10 ^ power⌉ = 1 := by
  have hzpow : (0 : ℚ) < 10 ^ power := zpow_pos (by norm_num) power
  rw [Int.ceil_eq_iff, Int.cast_one, sub_self]
  refine ⟨mul_pos (Nat.cast_pos.mpr hpos) hzpow, ?_⟩
  calc (coefficient : ℚ) * 10 ^ power ≤ 10 ^ (length : ℤ) * 10 ^ power := by
        refine mul_le_mul_of_nonneg_right ?_ hzpow.le
        rw [zpow_natCast]
        exact_mod_cast hlt.le
    _ = 10 ^ (length + power : ℤ) := (zpow_add₀ (by norm_num) _ _).symm
    _ ≤ 1 := zpow_le_one_of_nonpos₀ (by norm_num) (by omega)

theorem cast_mul_zpow (h : 0 ≤ power) :
    (coefficient : ℚ) * 10 ^ power = ((coefficient * 10 ^ power.toNat : ℕ) : ℚ) := by
  have hpower : power = (power.toNat : ℤ) := (Int.toNat_of_nonneg h).symm
  rw [hpower, zpow_natCast, Int.toNat_natCast]
  push_cast
  rfl

theorem cast_mul_zpow_neg (h : power ≤ 0) :
    (coefficient : ℚ) * 10 ^ power = (coefficient : ℚ) / ((10 ^ power.natAbs : ℕ) : ℚ) := by
  have hpower : power = -(power.natAbs : ℤ) := by omega
  rw [hpower, zpow_neg, zpow_natCast, Int.natAbs_neg, Int.natAbs_natCast, ← div_eq_mul_inv]
  push_cast
  rfl

variable {chars : List Char} {b : U64}

theorem lt_pow_of_digits (h : ∀ c ∈ chars, c.isDigit = true) (hne : significant chars ≠ [])
    (hpower : 0 ≤ power) (hfits : digitsValue (significant chars) * 10 ^ power.toNat < 2 ^ 64) :
    power ≤ 19 ∧ (significant chars).length + power ≤ 20 := by
  have hfirst := le_digitsValue_significant h hne
  have hlength := length_pos_of_ne_nil hne
  have hplaces : 10 ^ ((significant chars).length - 1 + power.toNat) < 10 ^ 20 := by
    calc 10 ^ ((significant chars).length - 1 + power.toNat)
        = 10 ^ ((significant chars).length - 1) * 10 ^ power.toNat := pow_add _ _ _
      _ ≤ digitsValue (significant chars) * 10 ^ power.toNat := Nat.mul_le_mul_right _ hfirst
      _ < 2 ^ 64 := hfits
      _ < 10 ^ 20 := by norm_num
  have hexponent := (Nat.pow_lt_pow_iff_right (by norm_num)).mp hplaces
  omega

theorem ceilAmount_eq_ok (h : ∀ c ∈ chars, c.isDigit = true) (hne : significant chars ≠ []) {power : I64} :
    ceilAmount (significant chars) power = .ok b ↔ ⌈(digitsValue chars : ℚ) * 10 ^ power.val⌉ = b.val := by
  have hcoefficient := digitsValue_significant chars
  have hpos : 0 < digitsValue chars :=
    Nat.pos_of_ne_zero fun hzero => hne ((significant_eq_nil h).mpr hzero)
  unfold ceilAmount
  dsimp only
  split_ifs with hsign hplaces
  · rw [cast_mul_zpow hsign, Int.ceil_natCast, bind_eq_ok, ← hcoefficient]
    simp only [require_eq_ok, okOr_eq_ok, Unsigned.ofNat?_eq_some, Nat.cast_inj]
    constructor
    · rintro ⟨-, -, hb⟩
      exact hb.symm
    · intro hb
      exact ⟨(), lt_pow_of_digits h hne hsign (hb ▸ b.isLt), hb.symm⟩
  · have hlt := digitsValue_lt (isDigit_significant h)
    rw [ceil_eq_one hpos (hcoefficient ▸ hlt) (by omega), Except.ok.injEq]
    constructor
    · rintro rfl
      rfl
    · intro hb
      exact Unsigned.ext (Int.natCast_inj.mp hb)
  · rw [cast_mul_zpow_neg (by omega), ceil_div _ (by positivity), okOr_eq_ok, Unsigned.ofNat?_eq_some, hcoefficient,
      Int.natCast_inj]
    exact eq_comm

/-- A JSON decimal, as a number or as a string of its text. -/
def RpcValue.Denotes (value : RpcValue) (n : Number) : Prop := value = .number n ∨ value = .string n.text

variable {value : RpcValue} {n : Number}

theorem RpcValue.Denotes.of_parse {text : List Char} (htext : value.text? = some text) (hparse : parse text = some n) :
    value.Denotes n := by
  cases value with
  | number m =>
    have hsame : parse m.text = some n := Option.some.inj htext ▸ hparse
    rw [parse_text] at hsame
    exact .inl (congrArg _ (Option.some.inj hsame))
  | string other => exact .inr (congrArg _ ((Option.some.inj htext).trans (text_of_parse hparse).symm))
  | null | other => cases htext

theorem RpcValue.Denotes.text? (h : value.Denotes n) : value.text? = some n.text := by
  rcases h with rfl | rfl <;> rfl

theorem utf8Size_of_mem_text {c : Char} (h : c ∈ n.text) : c.utf8Size = 1 := by
  have hdigit : ∀ c : Char, c.isDigit = true → c.utf8Size = 1 := by
    intro c hc
    have hle := (isDigit_toNat hc).2
    change c.val.toNat ≤ 57 at hle
    unfold Char.utf8Size
    rw [if_pos (UInt32.le_iff_toNat_le.mpr (hle.trans (by decide)))]
  rcases mem_append.mp h with hmantissa | hexponent
  · rcases mem_mantissa n hmantissa with hc | rfl | rfl
    · exact hdigit c hc
    · rfl
    · rfl
  · cases hpart : n.exponent with
    | none =>
      rw [hpart] at hexponent
      cases hexponent
    | some exponent =>
      rw [hpart, Option.elim_some, Exponent.text, Exponent.tail, mem_cons, mem_append] at hexponent
      rcases hexponent with rfl | hsign | hdigits
      · cases exponent.mark <;> rfl
      · obtain ⟨sign, -, rfl⟩ := mem_map.mp hsign
        cases sign <;> rfl
      · exact hdigit c (exponent.digits.isDigit c hdigits)

theorem byteLen_text (n : Number) : byteLen n.text = n.text.length := by
  unfold byteLen
  rw [map_congr_left fun c hc => utf8Size_of_mem_text hc, map_const', sum_replicate, smul_eq_mul, Nat.mul_one]

theorem value_mul (n : Number) (h : n.negative = false) :
    n.value * 10 ^ 8 = n.coefficient * 10 ^ (n.exponentValue + 8 - n.fractionChars.length) := by
  have hpower : n.exponentValue + 8 - n.fractionChars.length = n.exponentValue - n.fractionChars.length + (8 : ℕ) := by
    push_cast
    ring
  rw [Number.value, h, if_neg Bool.false_ne_true, one_mul, hpower, zpow_add₀ (by norm_num), zpow_natCast, mul_assoc]

theorem value_pos (n : Number) : 0 < n.value ↔ n.negative = false ∧ n.coefficient ≠ 0 := by
  have hzpow : (0 : ℚ) < 10 ^ (n.exponentValue - n.fractionChars.length) := zpow_pos (by norm_num) _
  have hnonneg : (0 : ℚ) ≤ n.coefficient * 10 ^ (n.exponentValue - n.fractionChars.length) := by positivity
  unfold Number.value
  cases n.negative with
  | true =>
    rw [if_pos rfl, neg_one_mul]
    exact ⟨fun h => absurd h (not_lt.mpr (neg_nonpos.mpr hnonneg)), fun h => nomatch h.1⟩
  | false =>
    rw [if_neg Bool.false_ne_true, one_mul, mul_pos_iff_of_pos_right hzpow, Nat.cast_pos, Nat.pos_iff_ne_zero]
    exact ⟨fun h => ⟨rfl, h⟩, And.right⟩

def FitsI64 (z : ℤ) : Prop := -2 ^ 63 ≤ z ∧ z < 2 ^ 63

theorem fitsI64_iff {z : ℤ} : FitsI64 z ↔ ∃ a : I64, a.val = z :=
  ⟨fun h => ⟨⟨z, h.1, h.2⟩, rfl⟩, fun ⟨a, ha⟩ => ha ▸ ⟨a.lower, a.upper⟩⟩

theorem decimalBits_eq_ok (hlength : n.text.length ≤ 4096) :
    decimalBits n.text = .ok b ↔ 0 < n.value ∧ FitsI64 n.exponentValue ∧ FitsI64 (n.exponentValue + 8) ∧
      FitsI64 (n.exponentValue + 8 - n.fractionChars.length) ∧ ⌈n.value * 10 ^ 8⌉ = b.val := by
  have hfraction : (Signed.wrapping n.fractionChars.length : I64).val = n.fractionChars.length :=
    Signed.wrapping_val (by omega) (by have := length_digits_le n; norm_num; omega)
  have hdigits := isDigit_digits n
  have height : (8 : I64).val = 8 := by decide
  unfold decimalBits
  simp only [bind_eq_ok, require_eq_ok, okOr_eq_ok, Option.bind_eq_some_iff, Signed.checkedAdd_eq_some,
    Signed.checkedSub_eq_some, height]
  rw [value_pos, ne_eq, head_text, Bool.not_eq_true]
  constructor
  · rintro ⟨⟨⟩, hsign, ⟨mantissa, exponent⟩, hsplit, ⟨⟩, hne, power, ⟨shifted, hshifted, hpower⟩, hamount⟩
    obtain ⟨rfl, hexponent⟩ := (splitExponent_text n).mp hsplit
    dsimp only at hne hshifted hpower hamount
    rw [splitMantissa_of_nonneg n hsign] at hne hpower hamount
    rw [hfraction, hshifted, hexponent] at hpower
    rw [ceilAmount_eq_ok hdigits hne, hpower] at hamount
    refine ⟨⟨hsign, fun hzero => hne ((significant_eq_nil hdigits).mpr hzero)⟩, fitsI64_iff.mpr ⟨exponent, hexponent⟩,
      fitsI64_iff.mpr ⟨shifted, hexponent ▸ hshifted⟩, fitsI64_iff.mpr ⟨power, hpower⟩, ?_⟩
    rw [value_mul n hsign]
    exact hamount
  · rintro ⟨⟨hsign, hcoefficient⟩, hexponent, hshifted, hpower, hamount⟩
    obtain ⟨exponent, hexponent⟩ := fitsI64_iff.mp hexponent
    obtain ⟨shifted, hshifted⟩ := fitsI64_iff.mp hshifted
    obtain ⟨power, hpower⟩ := fitsI64_iff.mp hpower
    have hne : significant (n.whole.chars ++ n.fractionChars) ≠ [] :=
      fun hnil => hcoefficient ((significant_eq_nil hdigits).mp hnil)
    refine ⟨(), hsign, (n.mantissa, exponent), (splitExponent_text n).mpr ⟨rfl, hexponent⟩, ?_⟩
    dsimp only
    rw [splitMantissa_of_nonneg n hsign]
    refine ⟨(), hne, power, ⟨shifted, by rw [hshifted, hexponent], by rw [hpower, hshifted, hfraction]⟩, ?_⟩
    rw [ceilAmount_eq_ok hdigits hne, hpower, ← hamount, value_mul n hsign]
    rfl

theorem feeEstimateBits_eq_ok :
    feeEstimateBits value = .ok b ↔
      ∃ n, value.Denotes n ∧ n.text.length ≤ 4096 ∧ decimalBits n.text = .ok b := by
  unfold feeEstimateBits
  simp only [bind_eq_ok, require_eq_ok, okOr_eq_ok]
  constructor
  · rintro ⟨text, htext, ⟨⟩, hlength, n, hparse, hbits⟩
    exact ⟨n, .of_parse htext hparse, byteLen_text n ▸ text_of_parse hparse ▸ hlength, hbits⟩
  · rintro ⟨n, hdenotes, hlength, hbits⟩
    exact ⟨n.text, hdenotes.text?, (), (byteLen_text n).trans_le hlength, n, parse_text n, hbits⟩

theorem RpcValue.Denotes.unique {m : Number} (hn : value.Denotes n) (hm : value.Denotes m) :
    n = m := by
  have htext : n.text = m.text := Option.some.inj (hn.text?.symm.trans hm.text?)
  have hparse := parse_text n
  rw [htext, parse_text] at hparse
  exact (Option.some.inj hparse).symm

theorem fitsI64_shifted (hlength : n.text.length ≤ 4096) (hpos : 0 < n.value)
    (hexponent : FitsI64 n.exponentValue) (hceil : ⌈n.value * 10 ^ 8⌉ = b.val) :
    FitsI64 (n.exponentValue + 8) := by
  obtain ⟨hsign, hcoefficient⟩ := (value_pos n).mp hpos
  refine ⟨by have := hexponent.1; omega, ?_⟩
  by_contra hlarge
  have hfraction := length_digits_le n
  have hpower : 0 ≤ n.exponentValue + 8 - n.fractionChars.length := by omega
  rw [value_mul n hsign, cast_mul_zpow hpower, Int.ceil_natCast, Int.natCast_inj] at hceil
  have hne : significant (n.whole.chars ++ n.fractionChars) ≠ [] :=
    fun hnil => hcoefficient ((significant_eq_nil (isDigit_digits n)).mp hnil)
  have hsmall := lt_pow_of_digits (isDigit_digits n) hne hpower (by
    rw [digitsValue_significant, ← Number.coefficient, hceil]
    exact b.isLt)
  omega

theorem feeEstimateBits_exact (hdenotes : value.Denotes n) (hlength : n.text.length ≤ 4096)
    (hexponent : FitsI64 n.exponentValue) (hpower : FitsI64 (n.exponentValue + 8 - n.fractionChars.length)) :
    feeEstimateBits value = .ok b ↔ 0 < n.value ∧ ⌈n.value * 10 ^ 8⌉ = b.val := by
  rw [feeEstimateBits_eq_ok]
  constructor
  · rintro ⟨m, hm, -, hbits⟩
    rw [hm.unique hdenotes] at hbits
    obtain ⟨hpos, -, -, -, hceil⟩ := (decimalBits_eq_ok hlength).mp hbits
    exact ⟨hpos, hceil⟩
  · rintro ⟨hpos, hceil⟩
    have hshifted := fitsI64_shifted hlength hpos hexponent hceil
    exact ⟨n, hdenotes, hlength, (decimalBits_eq_ok hlength).mpr ⟨hpos, hexponent, hshifted, hpower, hceil⟩⟩

theorem splitAmountExponent_text (n : Number) :
    (splitAmountExponent n.text).1 = n.mantissa ∧
      ((splitAmountExponent n.text).2.val = n.exponentValue ∨ (splitAmountExponent n.text).2.val = -2 ^ 31) := by
  unfold splitAmountExponent Number.exponentValue
  rw [splitOnce_text]
  cases hpart : n.exponent with
  | none =>
    refine ⟨?_, .inl Signed.val_zero⟩
    rw [Option.map_none, Number.text, hpart, Option.elim_none, append_nil]
  | some exponent =>
    refine ⟨rfl, ?_⟩
    rw [Option.map_some, Option.elim_some]
    dsimp only
    rw [parseSigned_tail]
    cases hfits : (Signed.ofInt? exponent.value : Option (Signed 32)) with
    | none => exact .inr rfl
    | some e => exact .inl (Signed.ofInt?_eq_some.mp hfits)

theorem exactAmount_eq_ok {digits amount : U128} {power : Signed 32} (hpower : power.val ≤ 38)
    (h : exactAmount digits power = .ok amount) : (digits.val : ℚ) * 10 ^ power.val = amount.val := by
  unfold exactAmount at h
  split_ifs at h with hsign
  · rw [okOr_eq_ok, Unsigned.checkedMul_eq_some] at h
    have hten : (10 : ℕ) ^ power.val.toNat < 2 ^ 128 := by
      calc 10 ^ power.val.toNat ≤ 10 ^ 38 := Nat.pow_le_pow_right (by norm_num) (by omega)
        _ < 2 ^ 128 := by norm_num
    rw [Unsigned.wrapping_val hten] at h
    rw [cast_mul_zpow hsign, h]
  · simp only [bind_eq_ok, require_eq_ok, pure_eq_ok] at h
    obtain ⟨⟨⟩, hdivides, rfl⟩ := h
    have hpos : (0 : ℚ) < ((10 ^ power.val.natAbs : ℕ) : ℚ) := by positivity
    have hplaces : (-power.val).toNat = power.val.natAbs := by omega
    rw [hplaces] at hdivides ⊢
    rw [Unsigned.wrapping_val (Nat.lt_of_le_of_lt (Nat.div_le_self _ _) digits.isLt), cast_mul_zpow_neg (by omega),
      div_eq_iff hpos.ne', ← Nat.cast_mul, Nat.div_mul_cancel (Nat.dvd_of_mod_eq_zero hdivides)]

theorem amountBits_exact (hdenotes : value.Denotes n) (hlength : n.text.length < 2 ^ 31)
    (h : amountBits value = .ok b) : n.value * 10 ^ 8 = b.val := by
  unfold amountBits at h
  rw [hdenotes.text?, okOr_some, ok_bind] at h
  obtain ⟨hmantissa, hexponent⟩ := splitAmountExponent_text n
  have hfraction : (Signed.wrapping n.fractionChars.length : Signed 32).val = n.fractionChars.length :=
    Signed.wrapping_val (by omega) (by have := length_digits_le n; norm_num; omega)
  generalize splitAmountExponent n.text = split at h hmantissa hexponent
  obtain ⟨mantissa, exponent⟩ := split
  dsimp only at h hmantissa hexponent
  subst hmantissa
  rw [splitMantissa_mantissa] at h
  dsimp only at h
  simp only [bind_eq_ok, require_eq_ok, okOr_eq_ok, Option.bind_eq_some_iff, Signed.checkedAdd_eq_some,
    Signed.checkedSub_eq_some, Unsigned.ofNat?_eq_some, hfraction] at h
  obtain ⟨⟨⟩, hall, ⟨⟩, -, digits, hdigits, power, ⟨shifted, hshifted, hpower⟩, ⟨⟩, ⟨hlower, hupper⟩, amount, hamount, hb⟩ := h
  -- a minus sign is no digit
  have hsign : n.negative = false := by
    by_contra hnegative
    rw [Bool.not_eq_false] at hnegative
    simp [hnegative] at hall
  rw [hsign, if_neg Bool.false_ne_true, nil_append] at hdigits
  have height : (8 : Signed 32).val = 8 := by decide
  rw [height] at hshifted
  have hvalue : power.val = n.exponentValue + 8 - n.fractionChars.length := by
    rcases hexponent with hexponent | hexponent
    · omega
    · norm_num at hexponent
      omega
  rw [value_mul n hsign, ← hvalue, Number.coefficient, ← hdigits, exactAmount_eq_ok hupper hamount, hb]

def MempoolInfo.reported (mempool : MempoolInfo) : List RpcValue :=
  [mempool.minrelaytxfee, mempool.mempoolminfee].filterMap (Option.filter (· ≠ .null))

theorem higherFloor_eq_ok {name : String} {value : Option RpcValue} {current next : Option U64}
    (h : higherFloor name value current = .ok next) :
    (∀ rate ∈ current, ∃ floor ∈ next, rate.val ≤ floor.val) ∧
      ∀ reported ∈ value.filter (· ≠ .null), ∃ rate, feeEstimateBits reported = .ok rate ∧
        ∃ floor ∈ next, rate.val ≤ floor.val := by
  unfold higherFloor at h
  split at h
  · next hnone =>
      cases h
      rw [hnone]
      exact ⟨fun rate hrate => ⟨rate, hrate, le_rfl⟩, fun _ hreported => nomatch hreported⟩
  · next reported hreported =>
      simp only [bind_eq_ok, mapError_eq_ok, pure_eq_ok] at h
      obtain ⟨rate, hrate, rfl⟩ := h
      rw [hreported]
      cases current with
      | none => simpa using ⟨rate, hrate, le_rfl⟩
      | some current =>
        simp only [Option.mem_def, Option.some.injEq, forall_eq', exists_eq_left', Option.elim_some]
        split_ifs with hle
        · exact ⟨hle, rate, hrate, le_rfl⟩
        · exact ⟨le_rfl, rate, hrate, by omega⟩

theorem relayFeeFloor_eq_ok {mempool : MempoolInfo} {floor : U64} (h : relayFeeFloor (some mempool) = .ok floor) :
    ∀ value ∈ mempool.reported, ∃ rate, feeEstimateBits value = .ok rate ∧ rate.val ≤ floor.val := by
  unfold relayFeeFloor at h
  simp only [okOr_some, ok_bind, bind_eq_ok, okOr_eq_ok] at h
  obtain ⟨first, hfirst, second, hsecond, rfl⟩ := h
  obtain ⟨-, hmin⟩ := higherFloor_eq_ok hfirst
  obtain ⟨hkept, hmempool⟩ := higherFloor_eq_ok hsecond
  intro value hvalue
  obtain ⟨field, hfield, hreported⟩ := mem_filterMap.mp hvalue
  rcases mem_pair.mp hfield with rfl | rfl
  · obtain ⟨rate, hrate, between, hbetween, hle⟩ := hmin value hreported
    obtain ⟨floor', hfloor, hle'⟩ := hkept between hbetween
    exact ⟨rate, hrate, Option.some.inj hfloor ▸ hle.trans hle'⟩
  · obtain ⟨rate, hrate, floor', hfloor, hle⟩ := hmempool value hreported
    exact ⟨rate, hrate, Option.some.inj hfloor ▸ hle⟩

theorem feeEstimateBits_ge {rate : U64} (h : feeEstimateBits value = .ok rate) :
    ∃ n, value.Denotes n ∧ n.value * 10 ^ 8 ≤ rate.val := by
  obtain ⟨n, hdenotes, hlength, hbits⟩ := feeEstimateBits_eq_ok.mp h
  obtain ⟨-, -, -, -, hceil⟩ := (decimalBits_eq_ok hlength).mp hbits
  refine ⟨n, hdenotes, ?_⟩
  have hle := Int.le_ceil (n.value * 10 ^ 8)
  rwa [hceil, Int.cast_natCast] at hle

theorem estimateCtvFanoutFeeSats_ge {count : ℕ} {policy : FanoutFeeRatePolicy} {fee : U64}
    (h : estimateCtvFanoutFeeSats count policy = .ok fee) :
    ∃ weight, estimatedCtvFanoutWeightBytes count = .ok weight ∧
      weight.val * (policy.marketFeeRateSatsPer1000Weight.val * policy.premiumBps.val) ≤ fee.val * (1000 * 10000) := by
  unfold estimateCtvFanoutFeeSats at h
  simp only [bind_eq_ok, okOr_eq_ok, Option.bind_eq_some_iff, Unsigned.checkedMul_eq_some,
    Unsigned.checkedAdd_eq_some, Unsigned.ofNat?_eq_some] at h
  obtain ⟨-, -, -, -, -, -, weight, hweight, numerator, ⟨product, hproduct, hnumerator⟩, rounded, hrounded, hfee⟩ := h
  refine ⟨weight, hweight, ?_⟩
  have hadded : (Unsigned.wrapping (1000 * 10000 - 1) : U128).val = 9999999 := by decide
  rw [hadded] at hrounded
  have hexact : numerator.val =
      weight.val * (policy.marketFeeRateSatsPer1000Weight.val * policy.premiumBps.val) := by
    rw [hnumerator, hproduct, Nat.mul_assoc]
    rfl
  rw [← hexact]
  omega

theorem fee_ge_floor {policy : FanoutFeeRatePolicy} {floor fee : U64} {count : ℕ}
    (hvalid : validateFeeFloor policy floor = .ok ()) (hfee : estimateCtvFanoutFeeSats count policy = .ok fee) :
    ∃ weight, estimatedCtvFanoutWeightBytes count = .ok weight ∧ floor.val * weight.val ≤ fee.val * 1000 := by
  obtain ⟨weight, hweight, hle⟩ := estimateCtvFanoutFeeSats_ge hfee
  unfold validateFeeFloor at hvalid
  simp only [bind_eq_ok, require_eq_ok] at hvalid
  obtain ⟨-, -, heffective⟩ := hvalid
  refine ⟨weight, hweight, Nat.le_of_mul_le_mul_right ?_ (show 0 < 10000 by decide)⟩
  calc floor.val * weight.val * 10000 = weight.val * (floor.val * 10000) := by ring
    _ ≤ weight.val * (policy.marketFeeRateSatsPer1000Weight.val * policy.premiumBps.val) :=
        Nat.mul_le_mul_left _ heffective
    _ ≤ fee.val * (1000 * 10000) := hle
    _ = fee.val * 1000 * 10000 := by ring

/-- A decimal of at most 4096 characters whose exponent and shifted exponent fit 64 bits is a rate exactly
when it is positive and its rounding up fits; an amount in bits is the decimal itself; and a policy accepted
against the node's floors pays each of them, unrounded, for every fanout it can price. -/
theorem fee_decimals_exact :
    (∀ (value : RpcValue) (n : Number) (b : U64), value.Denotes n → n.text.length ≤ 4096 →
      FitsI64 n.exponentValue → FitsI64 (n.exponentValue + 8 - n.fractionChars.length) →
        (feeEstimateBits value = .ok b ↔ 0 < n.value ∧ ⌈n.value * 10 ^ 8⌉ = b.val)) ∧
    (∀ (value : RpcValue) (n : Number) (b : U64), value.Denotes n → n.text.length < 2 ^ 31 →
      amountBits value = .ok b → n.value * 10 ^ 8 = b.val) ∧
    ∀ (mempool : MempoolInfo) (floor : U64) (policy : FanoutFeeRatePolicy),
      relayFeeFloor (some mempool) = .ok floor → validateFeeFloor policy floor = .ok () →
        ∀ count fee, estimateCtvFanoutFeeSats count policy = .ok fee →
          ∃ weight, estimatedCtvFanoutWeightBytes count = .ok weight ∧
            ∀ value ∈ mempool.reported, ∃ n, value.Denotes n ∧
              n.value * 10 ^ 8 * weight.val / 1000 ≤ (fee.val : ℚ) := by
  refine ⟨fun _ _ _ => feeEstimateBits_exact, fun _ _ _ => amountBits_exact, ?_⟩
  intro mempool floor policy hfloor hvalid count fee hfee
  obtain ⟨weight, hweight, hpaid⟩ := fee_ge_floor hvalid hfee
  refine ⟨weight, hweight, fun value hvalue => ?_⟩
  obtain ⟨rate, hrate, hle⟩ := relayFeeFloor_eq_ok hfloor value hvalue
  obtain ⟨n, hdenotes, hnode⟩ := feeEstimateBits_ge hrate
  refine ⟨n, hdenotes, ?_⟩
  rw [div_le_iff₀ (by norm_num)]
  calc n.value * 10 ^ 8 * weight.val ≤ floor.val * weight.val :=
        mul_le_mul_of_nonneg_right (hnode.trans (by exact_mod_cast hle)) (Nat.cast_nonneg _)
    _ ≤ (fee.val : ℚ) * 1000 := by exact_mod_cast hpaid

def oneDigit (c : Char) (h : c.isDigit = true) : Digits := ⟨[c], by simp, by simpa using h⟩

def sampleRate : Number where
  negative := false
  whole := oneDigit '1' (by decide)
  leading := by decide
  fraction := none
  exponent := some ⟨.lower, some .minus, oneDigit '5' (by decide)⟩

theorem fee_decimals_exact_sample :
    (feeEstimateBits (.number sampleRate) = .ok 1000 ↔ 0 < sampleRate.value ∧ ⌈sampleRate.value * 10 ^ 8⌉ = 1000) ∧
      sampleRate.value * 10 ^ 8 = (1000 : ℕ) ∧
      ∃ weight, estimatedCtvFanoutWeightBytes 1 = .ok weight ∧
        ∀ value ∈ [RpcValue.number sampleRate], ∃ n, value.Denotes n ∧
          n.value * 10 ^ 8 * weight.val / 1000 ≤ ((134 : ℕ) : ℚ) :=
  ⟨fee_decimals_exact.1 (.number sampleRate) sampleRate 1000 (.inl rfl) (by decide +kernel)
      (by unfold FitsI64; decide) (by unfold FitsI64; decide),
    fee_decimals_exact.2.1 (.number sampleRate) sampleRate 1000 (.inl rfl) (by decide +kernel) (by decide +kernel),
    fee_decimals_exact.2.2 ⟨some (.number sampleRate), some .null⟩ 1000 ⟨2000, 5000⟩ (by decide +kernel)
      (by decide +kernel) 1 134 (by decide +kernel)⟩

def tinyExponent : List Char :=
  ['9', '2', '2', '3', '3', '7', '2', '0', '3', '6', '8', '5', '4', '7', '7', '5', '8', '0', '9']

/-- One over a power of ten whose exponent is one below the least of 64 bits. -/
def tinyRate : Number where
  negative := false
  whole := oneDigit '1' (by decide)
  leading := by decide
  fraction := none
  exponent := some ⟨.lower, some .minus, ⟨tinyExponent, by decide, by simp [tinyExponent]⟩⟩

theorem feeEstimateBits_tinyRate :
    tinyRate.text = "1e-9223372036854775809".toList ∧
      FitsI64 (tinyRate.exponentValue + 8 - tinyRate.fractionChars.length) ∧
      0 < tinyRate.value ∧ ⌈tinyRate.value * 10 ^ 8⌉ = 1 ∧
      feeEstimateBits (.number tinyRate) = .error "CTV fee exponent overflow" := by
  have hexponent : tinyRate.exponentValue = -9223372036854775809 := by decide +kernel
  refine ⟨by decide +kernel, ?_, (value_pos tinyRate).mpr ⟨rfl, by decide⟩, ?_, by decide +kernel⟩
  · rw [hexponent]
    unfold FitsI64
    decide
  · rw [value_mul tinyRate rfl, hexponent]
    exact @ceil_eq_one _ _ (by decide) 1 (by decide) (by decide)

end QbitPrism
