import Mathlib
import QbitPrism.Coordinator.FeeFloor

/-!
# Dashboard ratios

The dashboard shows quotients as plain decimals of 28 significant digits, rounded to the nearest and
ties to even. The exponent is guessed from the digit counts and corrected by one comparison. Exponents
are 32-bit integers that wrap, as in a build without overflow checks.
-/
namespace QbitPrism
open MachineInt Decimal List

def roundEven (n d : ℕ) : ℕ :=
  let twice := n % d * 2
  if d < twice ∨ twice = d ∧ n / d % 2 ≠ 0 then n / d + 1 else n / d

def wrap32 (z : ℤ) : ℤ := z.bmod (2 ^ 32)

def digitCount (n : ℕ) : ℕ := (Nat.toDigits 10 n).length

/-- Whether `n / d` is below the power of ten. -/
def below (n d : ℕ) (exponent : ℤ) : Bool :=
  if 0 ≤ exponent then n < d * 10 ^ exponent.toNat else n * 10 ^ (-exponent).toNat < d

/-- `n / d` in units of the last place, rounded. -/
def scaledValue (n d : ℕ) (places : ℤ) : ℕ :=
  if 0 ≤ places then roundEven (n * 10 ^ places.toNat) d else roundEven n (d * 10 ^ (-places).toNat)

/-- `value` with so many of its digits after the point, or zeros after it. -/
def placed (value : ℕ) (places : ℤ) : List Char :=
  let digits := Nat.toDigits 10 value
  if places ≤ 0 then digits ++ replicate (-places).toNat '0'
  else
    let text := replicate (places.toNat + 1 - digits.length) '0' ++ digits
    let split := text.length - places.toNat
    let fraction := (text.drop split).rdropWhile (· = '0')
    text.take split ++ if fraction = [] then [] else '.' :: fraction

def ratio (n d : ℕ) : List Char :=
  if n = 0 ∨ d = 0 then ['0']
  else
    let guess := wrap32 (wrap32 (digitCount n) - wrap32 (digitCount d))
    let exponent := if below n d guess then wrap32 (guess - 1) else guess
    let places := wrap32 (27 - exponent)
    placed (scaledValue n d places) places

def networkHashrate (value : RpcValue) : Option (List Char) := do
  let text ← value.text?
  guard (byteLen text ≤ 4096)
  let decimal := (← parse text).text
  let (mantissa, exponent) := (splitOnce isExponentMark decimal).getD (decimal, ['0'])
  let exponent ← parseSigned 32 exponent
  guard (-4096 ≤ exponent.val ∧ exponent.val ≤ 4096)
  let (whole, fraction) := splitMantissa (mantissa.dropWhile (· = '-'))
  let numerator ← parseNatural (whole ++ fraction)
  guard (¬(decimal.head? = some '-' ∧ numerator ≠ 0))
  let power := exponent.val - fraction.length - 12
  some (if 0 ≤ power then ratio (numerator * 10 ^ power.toNat) 1 else ratio numerator (10 ^ (-power).toNat))

/-- `k` is the nearest natural number to `x`, the even one of two. -/
def Nearest (x : ℚ) (k : ℕ) : Prop := |x - k| ≤ 1 / 2 ∧ (|x - k| = 1 / 2 → Even k)

/-- `y` is `x` rounded to 28 significant digits. -/
def Rounds28 (x y : ℚ) : Prop :=
  x = 0 ∧ y = 0 ∨ ∃ e : ℤ, 10 ^ e ≤ x ∧ x < 10 ^ (e + 1) ∧
    ∃ k : ℕ, Nearest (x * 10 ^ (27 - e)) k ∧ y = k * 10 ^ (e - 27)

/-- A number without sign, exponent or trailing zeros in its fraction. -/
def Plain (m : Number) : Prop :=
  m.negative = false ∧ m.exponent = none ∧ ∀ digits ∈ m.fraction, digits.chars.getLast? ≠ some '0'

def ShowsRounded (text : List Char) (x : ℚ) : Prop := ∃ m : Number, Plain m ∧ m.text = text ∧ Rounds28 x m.value

/-- The digit counts, and the places the divisor's digits ask for, are 32-bit integers. -/
def Counted (n d : ℕ) : Prop := digitCount n < 2 ^ 31 ∧ digitCount d + 27 < 2 ^ 31

section Rounding
variable {n d : ℕ}

theorem roundEven_nearest (n : ℕ) (hd : 0 < d) : Nearest (n / d) (roundEven n d) := by
  have hpos : (0 : ℚ) < d := Nat.cast_pos.mpr hd
  have hsplit : (n : ℚ) / d = (n / d : ℕ) + (n % d : ℕ) / d := by
    rw [add_div' _ _ _ hpos.ne', ← Nat.cast_mul, ← Nat.cast_add, Nat.div_add_mod']
  obtain ⟨rest, hrest⟩ : ∃ rest : ℚ, ((n % d : ℕ) : ℚ) / d = rest := ⟨_, rfl⟩
  have hnonneg : 0 ≤ rest := by rw [← hrest]; positivity
  have hlt : rest < 1 := hrest ▸ (div_lt_one hpos).mpr (Nat.cast_lt.mpr (Nat.mod_lt n hd))
  have htwice : ((n % d * 2 : ℕ) : ℚ) / d = 2 * rest := by rw [← hrest]; push_cast; ring
  rw [hsplit, hrest]
  unfold Nearest roundEven
  dsimp only
  split_ifs with hup
  · rw [Nat.cast_add, Nat.cast_one, add_sub_add_left_eq_sub, abs_sub_comm, abs_of_pos (sub_pos.mpr hlt)]
    rcases hup with hup | ⟨htie, hodd⟩
    · have hhalf : 1 < 2 * rest := by
        rw [← htwice, one_lt_div hpos]
        exact_mod_cast hup
      exact ⟨by linarith, fun heq => by linarith⟩
    · have hhalf : 2 * rest = 1 := by rw [← htwice, htie, div_self hpos.ne']
      exact ⟨by linarith, fun _ => Nat.even_add_one.mpr (by rwa [Nat.even_iff])⟩
  · rw [add_sub_cancel_left, abs_of_nonneg hnonneg]
    have hhalf : 2 * rest ≤ 1 := by
      rw [← htwice, div_le_one hpos]
      exact_mod_cast not_lt.mp fun hlt => hup (.inl hlt)
    refine ⟨by linarith, fun heq => Nat.even_iff.mpr (by_contra fun hodd => hup (.inr ⟨?_, hodd⟩))⟩
    have htie : ((n % d * 2 : ℕ) : ℚ) / d = 1 := by rw [htwice, heq]; norm_num
    exact_mod_cast (div_eq_one_iff_eq hpos.ne').mp htie

theorem zpow_toNat {z : ℤ} (hz : 0 ≤ z) : (10 : ℚ) ^ z = ((10 ^ z.toNat : ℕ) : ℚ) := by
  simpa only [Nat.cast_one, one_mul] using @cast_mul_zpow 1 z hz

theorem below_iff (hd : 0 < d) (z : ℤ) : below n d z = true ↔ (n : ℚ) / d < 10 ^ z := by
  have hpos : (0 : ℚ) < d := Nat.cast_pos.mpr hd
  unfold below
  split_ifs with hz
  · rw [decide_eq_true_eq, zpow_toNat hz, div_lt_iff₀ hpos, mul_comm, ← Nat.cast_mul, Nat.cast_lt]
  · have hz : 0 ≤ -z := by omega
    rw [decide_eq_true_eq, ← neg_neg z, zpow_neg, zpow_toNat (by simpa using hz), neg_neg, ← one_div,
      lt_div_iff₀ (by positivity), div_mul_eq_mul_div, div_lt_one hpos, ← Nat.cast_mul, Nat.cast_lt]

theorem scaledValue_nearest (n : ℕ) (hd : 0 < d) (z : ℤ) : Nearest (n / d * 10 ^ z) (scaledValue n d z) := by
  unfold scaledValue
  split_ifs with hz
  · have hscaled : (n : ℚ) / d * 10 ^ z = ((n * 10 ^ z.toNat : ℕ) : ℚ) / d := by
      rw [zpow_toNat hz, Nat.cast_mul, div_mul_eq_mul_div]
    rw [hscaled]
    exact roundEven_nearest _ hd
  · have hscaled : (n : ℚ) / d * 10 ^ z = (n : ℚ) / ((d * 10 ^ (-z).toNat : ℕ) : ℚ) := by
      rw [← neg_neg z, zpow_neg, zpow_toNat (by omega), neg_neg, Nat.cast_mul, div_mul_eq_div_div, ← div_eq_mul_inv]
    rw [hscaled]
    exact roundEven_nearest n (Nat.mul_pos hd (by positivity))

theorem digitCount_bounds (hn : 0 < n) : (10 : ℚ) ^ ((digitCount n : ℤ) - 1) ≤ n ∧ (n : ℚ) < 10 ^ (digitCount n : ℤ) := by
  have hpos : 0 < digitCount n := Nat.length_toDigits_pos
  constructor
  · rw [zpow_toNat (by omega), Nat.cast_le]
    by_contra hlt
    rcases Nat.eq_zero_or_pos ((digitCount n : ℤ) - 1).toNat with hzero | hmore
    · rw [hzero] at hlt
      omega
    · have hle := (Nat.length_toDigits_le_iff (by norm_num) hmore).mpr (not_le.mp hlt)
      unfold digitCount at *
      omega
  · rw [zpow_natCast]
    exact_mod_cast (Nat.length_toDigits_le_iff (by norm_num) hpos).mp le_rfl

/-- The guess from the digit counts is at most one too large. -/
theorem guess_bounds (hn : 0 < n) (hd : 0 < d) :
    (10 : ℚ) ^ ((digitCount n : ℤ) - digitCount d - 1) ≤ n / d ∧
      (n : ℚ) / d < 10 ^ ((digitCount n : ℤ) - digitCount d + 1) := by
  obtain ⟨hnlow, hnhigh⟩ := digitCount_bounds hn
  obtain ⟨hdlow, hdhigh⟩ := digitCount_bounds hd
  have hpos : (0 : ℚ) < d := Nat.cast_pos.mpr hd
  constructor
  · rw [le_div_iff₀ hpos]
    calc (10 : ℚ) ^ ((digitCount n : ℤ) - digitCount d - 1) * d
        ≤ 10 ^ ((digitCount n : ℤ) - digitCount d - 1) * 10 ^ (digitCount d : ℤ) := by gcongr
      _ = 10 ^ ((digitCount n : ℤ) - 1) := by rw [← zpow_add₀ (by norm_num)]; congr 1; ring
      _ ≤ n := hnlow
  · rw [div_lt_iff₀ hpos]
    calc (n : ℚ) < 10 ^ (digitCount n : ℤ) := hnhigh
      _ = 10 ^ ((digitCount n : ℤ) - digitCount d + 1) * 10 ^ ((digitCount d : ℤ) - 1) := by
        rw [← zpow_add₀ (by norm_num)]; congr 1; ring
      _ ≤ _ := by gcongr

end Rounding

section Text
variable {whole fraction : List Char}

theorem exists_plain (hwhole : whole ≠ []) (hdigits : ∀ c ∈ whole ++ fraction, c.isDigit = true)
    (hleading : whole.head? = some '0' → whole = ['0']) (hlast : fraction.getLast? ≠ some '0') :
    ∃ m : Number, Plain m ∧ m.text = whole ++ (if fraction = [] then [] else '.' :: fraction) ∧
      m.value = digitsValue (whole ++ fraction) * 10 ^ (-(fraction.length : ℤ)) := by
  have hwholeDigits : ∀ c ∈ whole, c.isDigit = true := fun c hc => hdigits c (mem_append_left _ hc)
  rcases eq_or_ne fraction [] with rfl | hfraction
  · refine ⟨⟨false, ⟨whole, hwhole, hwholeDigits⟩, hleading, none, none⟩, ⟨rfl, rfl, by simp⟩, ?_, ?_⟩
    · simp [Number.text, Number.mantissa, Number.unsignedMantissa]
    · simp [Number.value, Number.coefficient, Number.fractionChars, Number.exponentValue]
  · have hfractionDigits : ∀ c ∈ fraction, c.isDigit = true := fun c hc => hdigits c (mem_append_right _ hc)
    refine ⟨⟨false, ⟨whole, hwhole, hwholeDigits⟩, hleading, some ⟨fraction, hfraction, hfractionDigits⟩, none⟩,
      ⟨rfl, rfl, by simpa using hlast⟩, ?_, ?_⟩
    · simp [Number.text, Number.mantissa, Number.unsignedMantissa, hfraction]
    · simp [Number.value, Number.coefficient, Number.fractionChars, Number.exponentValue]

theorem digitsValue_append (front back : List Char) :
    digitsValue (front ++ back) = 10 ^ back.length * digitsValue front + digitsValue back := by
  unfold digitsValue
  rw [Nat.ofDigitChars_append, Nat.ofDigitChars_eq_ofDigitChars_zero]

theorem digitsValue_zeros (count : ℕ) : digitsValue (replicate count '0') = 0 := by
  rw [digitsValue, Nat.ofDigitChars_replicate_zero, Nat.mul_zero]

theorem isDigit_zeros {count : ℕ} : ∀ c ∈ replicate count '0', c.isDigit = true := by
  intro c hc
  rw [eq_of_mem_replicate hc]
  rfl

variable {value : ℕ}

theorem head_toDigits (hvalue : 0 < value) : (Nat.toDigits 10 value).head? ≠ some '0' := by
  intro hhead
  obtain ⟨rest, hrest⟩ := head?_eq_some_iff.mp hhead
  have hdigits : ∀ c ∈ Nat.toDigits 10 value, c.isDigit = true :=
    fun c hc => Nat.isDigit_of_mem_toDigits (by norm_num) (by norm_num) hc
  have hsame : digitsValue rest = value := by
    have htotal : digitsValue ('0' :: rest) = value := hrest ▸ Nat.ofDigitChars_ten_toDigits
    rwa [digitsValue_cons, Nat.sub_self, Nat.mul_zero, Nat.zero_add] at htotal
  have hlt := digitsValue_lt fun c hc => hdigits c (hrest ▸ mem_cons_of_mem _ hc)
  rw [hsame] at hlt
  rcases Nat.eq_zero_or_pos rest.length with hzero | hpos
  · rw [hzero] at hlt
    omega
  · have hle := (Nat.length_toDigits_le_iff (by norm_num) hpos).mpr hlt
    rw [hrest, length_cons] at hle
    omega

/-- A digit text with its last `places` digits after the point, and the zeros at their end left out. -/
theorem pointed_plain {text : List Char} {places : ℕ} (hlong : places < text.length)
    (hdigits : ∀ c ∈ text, c.isDigit = true) (hleading : text.head? = some '0' → text.length = places + 1) :
    let fraction := (text.drop (text.length - places)).rdropWhile (· = '0')
    ∃ m : Number, Plain m ∧
      m.text = text.take (text.length - places) ++ (if fraction = [] then [] else '.' :: fraction) ∧
      m.value = digitsValue text * 10 ^ (-(places : ℤ)) := by
  intro fraction
  have hparts := take_append_drop (text.length - places) text
  have hfront : fraction <+: text.drop (text.length - places) := rdropWhile_prefix _ _
  have hrest : fraction ++ (text.drop (text.length - places)).rtakeWhile (· = '0') = text.drop (text.length - places) :=
    rdropWhile_append_rtakeWhile
  have hzeros : (text.drop (text.length - places)).rtakeWhile (· = '0') =
      replicate (places - fraction.length) '0' := by
    refine eq_replicate_iff.mpr ⟨?_, fun c hc => by simpa using mem_rtakeWhile_imp hc⟩
    have hlength := congrArg length hrest
    rw [length_append, length_drop] at hlength
    omega
  have hshort : fraction.length ≤ places := by
    have hlength := hfront.length_le
    rw [length_drop] at hlength
    exact hlength.trans (by omega)
  have hlast : fraction.getLast? ≠ some '0' := by
    intro hlast
    obtain ⟨front, hfront⟩ := getLast?_eq_some_iff.mp hlast
    have hne : fraction ≠ [] := by simp [hfront]
    refine rdropWhile_last_not _ _ hne (decide_eq_true ?_)
    rw [getLast?_eq_some_getLast hne] at hlast
    exact Option.some.inj hlast
  rw [hzeros] at hrest
  obtain ⟨m, hplain, htext, hvalue⟩ := @exists_plain (text.take (text.length - places)) fraction (by
      rw [ne_eq, take_eq_nil_iff]
      rintro (hzero | rfl)
      · omega
      · exact absurd hlong (Nat.not_lt_zero _)) (by
      intro c hc
      refine hdigits c (hparts ▸ mem_append.mpr ((mem_append.mp hc).imp_right fun hc => ?_))
      exact hfront.subset hc) (by
      rw [head?_take, if_neg (by omega)]
      intro hhead
      obtain ⟨rest, rfl⟩ := head?_eq_some_iff.mp hhead
      rw [hleading hhead, Nat.add_sub_cancel_left]
      rfl) hlast
  refine ⟨m, hplain, htext, hvalue.trans ?_⟩
  have hexact : digitsValue text =
      digitsValue (text.take (text.length - places) ++ fraction) * 10 ^ (places - fraction.length) := by
    conv_lhs => rw [← hparts, ← hrest, ← append_assoc, digitsValue_append, digitsValue_zeros, length_replicate]
    rw [Nat.add_zero, Nat.mul_comm]
  rw [hexact, Nat.cast_mul, mul_assoc, Nat.cast_pow, Nat.cast_ofNat, ← zpow_natCast, ← zpow_add₀ (by norm_num)]
  congr 2
  omega

theorem placed_plain (hvalue : 0 < value) (places : ℤ) :
    ∃ m : Number, Plain m ∧ m.text = placed value places ∧ m.value = value * 10 ^ (-places) := by
  have hdigits : ∀ c ∈ Nat.toDigits 10 value, c.isDigit = true :=
    fun c hc => Nat.isDigit_of_mem_toDigits (by norm_num) (by norm_num) hc
  have htotal : digitsValue (Nat.toDigits 10 value) = value := Nat.ofDigitChars_ten_toDigits
  have hne : Nat.toDigits 10 value ≠ [] := Nat.toDigits_ne_nil
  have hhead := head_toDigits hvalue
  unfold placed
  dsimp only
  generalize Nat.toDigits 10 value = digits at hdigits htotal hne hhead ⊢
  by_cases hplaces : places ≤ 0
  · obtain ⟨m, hplain, htext, hmvalue⟩ := @exists_plain (digits ++ replicate (-places).toNat '0') []
      (append_ne_nil_of_left_ne_nil hne _) (by
        rw [append_nil]
        exact fun c hc => (mem_append.mp hc).elim (hdigits c) (isDigit_zeros c)) (by
        rw [head?_append_of_ne_nil _ hne]
        exact fun h => absurd h hhead) (by simp)
    rw [if_pos hplaces]
    refine ⟨m, hplain, by simpa using htext, hmvalue.trans ?_⟩
    rw [append_nil, digitsValue_append, digitsValue_zeros, length_replicate, htotal,
      zpow_toNat (Int.neg_nonneg.mpr hplaces)]
    simp [mul_comm]
  · obtain ⟨m, hplain, htext, hmvalue⟩ := @pointed_plain (replicate (places.toNat + 1 - digits.length) '0' ++ digits)
      places.toNat (by rw [length_append, length_replicate]; omega)
      (fun c hc => (mem_append.mp hc).elim (isDigit_zeros c) (hdigits c)) (by
        intro hfirst
        rw [length_append, length_replicate]
        rcases Nat.eq_zero_or_pos (places.toNat + 1 - digits.length) with hzero | hpad
        · rw [hzero, replicate_zero, nil_append] at hfirst
          exact absurd hfirst hhead
        · omega)
    rw [if_neg hplaces]
    refine ⟨m, hplain, htext, hmvalue.trans ?_⟩
    rw [digitsValue_append, digitsValue_zeros, Nat.mul_zero, Nat.zero_add, htotal, Int.toNat_of_nonneg (by omega)]

end Text

theorem wrap32_eq {z : ℤ} (hlow : -2 ^ 31 ≤ z) (hhigh : z < 2 ^ 31) : wrap32 z = z :=
  Int.bmod_eq_of_le_mul_two (by push_cast; omega) (by push_cast; omega)

theorem ratio_rounds {n d : ℕ} (hd : 0 < d) (h : Counted n d) : ShowsRounded (ratio n d) (n / d) := by
  obtain ⟨hn, hplaces⟩ := h
  rcases Nat.eq_zero_or_pos n with rfl | hpos
  · obtain ⟨m, hplain, htext, hvalue⟩ := @exists_plain ['0'] [] (by simp) (@isDigit_zeros 1) (fun _ => rfl) (by simp)
    refine ⟨m, hplain, ?_, .inl ⟨by simp, hvalue.trans (by simp [digitsValue, Nat.ofDigitChars])⟩⟩
    rw [ratio, if_pos (.inl rfl)]
    exact htext
  · obtain ⟨hlow, hhigh⟩ := guess_bounds hpos hd
    have hnpos : 0 < digitCount n := Nat.length_toDigits_pos
    have hdpos : 0 < digitCount d := Nat.length_toDigits_pos
    unfold ratio
    rw [if_neg (by omega)]
    rw [@wrap32_eq (digitCount n) (by omega) (by omega), @wrap32_eq (digitCount d) (by omega) (by omega),
      wrap32_eq (by omega) (by omega)]
    dsimp only
    obtain ⟨e, he, hrange, hle, hlt⟩ : ∃ e, (if below n d (digitCount n - digitCount d) = true then
        wrap32 (digitCount n - digitCount d - 1) else (digitCount n : ℤ) - digitCount d) = e ∧
        (-2 ^ 31 < 27 - e ∧ 27 - e < 2 ^ 31) ∧ 10 ^ e ≤ (n : ℚ) / d ∧ (n : ℚ) / d < 10 ^ (e + 1) := by
      refine ⟨_, rfl, ?_⟩
      split_ifs with hbelow
      · rw [wrap32_eq (by omega) (by omega)]
        refine ⟨by omega, hlow, ?_⟩
        rw [sub_add_cancel]
        exact (below_iff hd _).mp hbelow
      · refine ⟨by omega, not_lt.mp fun hlt => hbelow ((below_iff hd _).mpr hlt), hhigh⟩
    rw [he, wrap32_eq hrange.1.le hrange.2]
    have hnear := scaledValue_nearest n hd (27 - e)
    have hvalue : 0 < scaledValue n d (27 - e) := by
      have hlarge : (1 : ℚ) ≤ (n : ℚ) / d * 10 ^ (27 - e) := by
        calc (1 : ℚ) ≤ 10 ^ (27 : ℤ) := by norm_num
          _ = 10 ^ e * 10 ^ (27 - e) := by rw [← zpow_add₀ (by norm_num)]; congr 1; ring
          _ ≤ _ := by gcongr
      have hclose := (abs_le.mp hnear.1).2
      exact_mod_cast (show (0 : ℚ) < scaledValue n d (27 - e) by linarith)
    obtain ⟨m, hplain, htext, hmvalue⟩ := placed_plain hvalue (27 - e)
    exact ⟨m, hplain, htext, .inr ⟨e, hle, hlt, _, hnear, by rw [hmvalue, neg_sub]⟩⟩

section Hashrate
variable (m : Number)

theorem dropWhile_mantissa : m.mantissa.dropWhile (· = '-') = m.unsignedMantissa := by
  obtain ⟨c, chars, hchars⟩ := exists_cons_of_ne_nil m.whole.ne_nil
  have hdigit : c ≠ '-' := ne_of_isDigit (m.whole.isDigit c (hchars ▸ mem_cons_self)) (by decide)
  unfold Number.mantissa Number.unsignedMantissa
  rw [hchars]
  cases m.negative <;> simp [hdigit]

theorem splitMantissa_unsigned : splitMantissa m.unsignedMantissa = (m.whole.chars, m.fractionChars) :=
  splitMantissa_of_nonneg { m with negative := false } rfl

theorem splitExponent_getD {exponent : Signed 32} :
    parseSigned 32 ((splitOnce isExponentMark m.text).getD (m.text, ['0'])).2 = some exponent →
      ((splitOnce isExponentMark m.text).getD (m.text, ['0'])).1 = m.mantissa ∧ exponent.val = m.exponentValue := by
  rw [splitOnce_text]
  unfold Number.exponentValue
  cases hpart : m.exponent with
  | none =>
    intro hzero
    have hvalue : parseSigned 32 ['0'] = some 0 := rfl
    rw [Option.map_none, Option.getD_none, hvalue] at hzero
    cases hzero
    exact ⟨by rw [Option.map_none, Option.getD_none, Number.text, hpart, Option.elim_none, append_nil], rfl⟩
  | some part =>
    rw [Option.map_some, Option.getD_some, parseSigned_tail, Signed.ofInt?_eq_some]
    exact fun hvalue => ⟨rfl, hvalue⟩

theorem value_eq (h : ¬(m.negative = true ∧ m.coefficient ≠ 0)) :
    m.value = m.coefficient * 10 ^ (m.exponentValue - m.fractionChars.length) := by
  unfold Number.value
  cases hsign : m.negative with
  | true =>
    have hzero : m.coefficient = 0 := by_contra fun hne => h ⟨hsign, hne⟩
    simp [hzero]
  | false => rw [if_neg Bool.false_ne_true, one_mul]

end Hashrate

theorem digitCount_le {n k : ℕ} (hk : 0 < k) : digitCount n ≤ k ↔ n < 10 ^ k :=
  Nat.length_toDigits_le_iff (by norm_num) hk

theorem digitCount_pow (k : ℕ) : digitCount (10 ^ k) = k + 1 := by
  refine le_antisymm ((digitCount_le k.succ_pos).mpr (Nat.pow_lt_pow_right (by norm_num) k.lt_succ_self)) ?_
  rcases Nat.eq_zero_or_pos k with rfl | hk
  · exact Nat.length_toDigits_pos
  · exact not_le.mp fun hle => absurd ((digitCount_le hk).mp hle) (lt_irrefl _)

theorem networkHashrate_eq {value : RpcValue} {text : List Char} (h : networkHashrate value = some text) :
    ∃ m : Number, value.Denotes m ∧ 0 ≤ m.value ∧
      ∃ n d : ℕ, 0 < d ∧ Counted n d ∧ (n : ℚ) / d = m.value / 10 ^ 12 ∧ text = ratio n d := by
  unfold networkHashrate at h
  simp only [Option.bind_eq_bind, Option.bind_eq_some_iff, Option.guard_eq_some'] at h
  obtain ⟨text, htext, -, hlength, m, hparse, exponent, hexponent, -, hbounds, numerator, hnumerator, -, hsign, h⟩ := h
  obtain ⟨hmantissa, hvalue⟩ := splitExponent_getD m hexponent
  rw [hmantissa, dropWhile_mantissa, splitMantissa_unsigned] at hnumerator h
  rw [parseNatural_digits ⟨m.whole.chars ++ m.fractionChars, by simp [m.whole.ne_nil], isDigit_digits m⟩] at hnumerator
  cases hnumerator
  rw [head_text] at hsign
  rw [← text_of_parse hparse, byteLen_text] at hlength
  have hdigits := length_digits_le m
  have hcount : 0 < m.whole.chars.length := length_pos_of_ne_nil m.whole.ne_nil
  have hsmall : m.coefficient < 10 ^ (m.whole.chars.length + m.fractionChars.length) :=
    length_append ▸ digitsValue_lt (isDigit_digits m)
  have hexact : m.value / 10 ^ 12 = m.coefficient * 10 ^ (exponent.val - m.fractionChars.length - 12) := by
    rw [value_eq m hsign, hvalue, zpow_sub₀ (by norm_num) _ 12, mul_div_assoc]
    rfl
  refine ⟨m, .of_parse htext hparse, ?_, ?_⟩
  · rw [value_eq m hsign]
    positivity
  · rw [hexact]
    generalize hshift : exponent.val - m.fractionChars.length - 12 = power at h ⊢
    split_ifs at h with hpower
    · refine ⟨_, 1, Nat.one_pos, ⟨?_, by decide⟩, ?_, (Option.some.inj h).symm⟩
      · have hlt := Nat.mul_lt_mul_of_pos_right hsmall (Nat.pow_pos (n := power.toNat) (show 0 < 10 by norm_num))
        rw [← pow_add] at hlt
        exact ((digitCount_le (by omega)).mpr hlt).trans_lt (by omega)
      · rw [cast_mul_zpow hpower, Nat.cast_one, div_one]
        rfl
    · refine ⟨_, _, Nat.pow_pos (by norm_num), ⟨?_, ?_⟩, ?_, (Option.some.inj h).symm⟩
      · exact ((digitCount_le (by omega)).mpr hsmall).trans_lt (by omega)
      · rw [digitCount_pow]
        omega
      · rw [cast_mul_zpow_neg (by omega), show power.natAbs = (-power).toNat by omega]
        rfl

/-- Just below the largest digit count the number of places wraps, and the text is a row of zeros. -/
theorem ratio_pow {k : ℕ} (hcount : k + 1 < 2 ^ 31) (hwraps : 2 ^ 31 ≤ k + 27) :
    ratio 1 (10 ^ k) = replicate (2 ^ 32 - 26 - k) '0' := by
  have hpos : 10 ≤ 10 ^ k := Nat.le_self_pow (by omega) 10
  have hplaces : wrap32 (27 - -(k : ℤ)) = 27 + k - 2 ^ 32 := by
    unfold wrap32
    rw [Int.bmod_def]
    omega
  have hguess : wrap32 (wrap32 (digitCount 1) - wrap32 (digitCount (10 ^ k))) = -k := by
    have hone : digitCount 1 = 1 := rfl
    rw [digitCount_pow, hone, @wrap32_eq (1 : ℕ) (by decide) (by decide), @wrap32_eq (k + 1 : ℕ) (by omega) (by omega),
      wrap32_eq (by omega) (by omega)]
    omega
  have hbelow : below 1 (10 ^ k) (-k) = false := by
    unfold below
    rw [if_neg (by omega), neg_neg, Int.toNat_natCast, one_mul]
    exact decide_eq_false (lt_irrefl _)
  have hzero : scaledValue 1 (10 ^ k) (27 + k - 2 ^ 32) = 0 := by
    unfold scaledValue
    rw [if_neg (by omega)]
    have hlarge : 10 ≤ 10 ^ k * 10 ^ (-(27 + (k : ℤ) - 2 ^ 32)).toNat := 
      hpos.trans (Nat.le_mul_of_pos_right _ (by positivity))
    generalize 10 ^ k * 10 ^ (-(27 + (k : ℤ) - 2 ^ 32)).toNat = d at hlarge
    unfold roundEven
    rw [Nat.mod_eq_of_lt (by omega), Nat.div_eq_of_lt (by omega)]
    exact if_neg (by omega)
  unfold ratio
  rw [if_neg (by omega), hguess]
  dsimp only
  rw [hbelow, if_neg Bool.false_ne_true, hplaces, hzero]
  unfold placed
  rw [if_pos (by omega)]
  refine (replicate_append_replicate (n := 1)).trans (congrArg (replicate · '0') ?_)
  omega

/-- No such row is a decimal numeral. -/
theorem text_ne_zeros {m : Number} (hplain : Plain m) {count : ℕ} (hcount : 1 < count) :
    m.text ≠ replicate count '0' := by
  obtain ⟨hsign, hexponent, -⟩ := hplain
  intro htext
  unfold Number.text Number.mantissa Number.unsignedMantissa at htext
  rw [hsign, hexponent, if_neg Bool.false_ne_true, nil_append, Option.elim_none, append_nil] at htext
  cases hfraction : m.fraction with
  | none =>
    rw [hfraction, Option.elim_none, append_nil] at htext
    have hone := m.leading (by rw [htext, head?_replicate, if_neg (by omega)])
    have hlength := congrArg length (htext.symm.trans hone)
    rw [length_replicate, length_singleton] at hlength
    omega
  | some digits =>
    rw [hfraction] at htext
    have hpoint : '.' ∈ replicate count '0' := htext ▸ mem_append_right _ mem_cons_self
    exact absurd (eq_of_mem_replicate hpoint) (by decide)

end QbitPrism
