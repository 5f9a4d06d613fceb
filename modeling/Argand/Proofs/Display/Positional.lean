import Argand.Proofs.Display.Mirror
import Argand.Proofs.Display.Nearest
import Argand.Proofs.Grammar.Tiling

/-!
# Parts in positional notation

A part that is a whole number is shown by its digits. Any other part is less than `2 ^ 52`, so the
first of its shortest digits stands before the sixteenth place in front of the point; and if it is
at least `1e-4`, it does not stand behind the fourth place after it. Such a part is shown without an
exponent, and its text is a numeral: digits with at most one point among them, which is read as the
float of the decimal number that it spells.

## Main definitions

* `Argand.Magnitude.value`: the rational number of a magnitude.
* `Argand.Decimal.order`: the power of ten that the first digit of a decimal number stands for.

## Main results

* `Argand.Magnitude.decimalOrder_spec`: the order of a magnitude, found by counting digits.
* `Argand.order_shortestDecimal`: the order of the shortest digits.
* `Argand.isPlainNumeral_digits`: a number of a moderate order is written as a numeral.
* `Argand.readFloat?_of_isPlainNumeral`: what a numeral is read as.
* `Argand.IsPositive.partText_spec`: the text of a part is a numeral that denotes the part.
-/

namespace Argand

open Float.Model Float.Model.UnpackedFloat

/-! ### Decimal orders -/

namespace Magnitude

/-- The **value** of a magnitude. -/
def value (m : Magnitude) : ℚ :=
  m.mantissa * 2 ^ m.exponent

/-- A power as a fraction. -/
theorem powerFraction_eq (base : Nat) (hbase : 0 < base) (e : Int) :
    0 < (powerFraction base e).2 ∧
      ((powerFraction base e).1 : ℚ) / (powerFraction base e).2 = (base : ℚ) ^ e := by
  refine ⟨Nat.pow_pos hbase, ?_⟩
  obtain ⟨n, rfl | rfl⟩ := e.eq_nat_or_neg <;> simp [powerFraction, Nat.pow_eq]

/-- A number times powers of two and ten as a fraction. -/
theorem scaledBy_eq (n : Nat) (binary decimal : Int) :
    0 < (scaledBy n binary decimal).2 ∧
      ((scaledBy n binary decimal).1 : ℚ) / (scaledBy n binary decimal).2 =
        n * 2 ^ binary * 10 ^ decimal := by
  obtain ⟨htwo, htwo'⟩ := powerFraction_eq 2 (by decide) binary
  obtain ⟨hten, hten'⟩ := powerFraction_eq 10 (by decide) decimal
  refine ⟨Nat.mul_pos htwo hten, ?_⟩
  simp only [scaledBy]
  push_cast at htwo' hten' ⊢
  rw [mul_div_mul_comm, mul_div_assoc, htwo', hten']

/-- The digits of a positive number tell it between powers of ten. -/
theorem digitCount_spec {n : Nat} (hn : 0 < n) :
    (10 : ℚ) ^ ((digitCount n : Int) - 1) ≤ n ∧ (n : ℚ) < 10 ^ (digitCount n : Int) := by
  have hpos : 0 < digitCount n := List.length_pos_of_ne_nil Nat.toDigits_ne_nil
  have hlt : n < 10 ^ digitCount n :=
    (Nat.length_toDigits_le_iff (by decide) hpos).mp le_rfl
  have hle : 10 ^ (digitCount n - 1) ≤ n := by
    by_contra hless
    obtain hzero | hone := Nat.eq_zero_or_pos (digitCount n - 1)
    · rw [hzero] at hless
      omega
    · have := (Nat.length_toDigits_le_iff (by decide) hone).mpr (Nat.lt_of_not_le hless)
      unfold digitCount at this hone hpos
      omega
  have hcast : (digitCount n : Int) - 1 = ((digitCount n - 1 : Nat) : Int) := by omega
  rw [hcast, zpow_natCast, zpow_natCast]
  exact ⟨by exact_mod_cast hle, by exact_mod_cast hlt⟩

/-- The digits of two numbers tell their quotient between powers of ten. -/
theorem digitCount_quotient {n d : Nat} (hn : 0 < n) (hd : 0 < d) :
    (10 : ℚ) ^ ((digitCount n : Int) - digitCount d - 1) ≤ n / d ∧
      (n : ℚ) / d < 10 ^ ((digitCount n : Int) - digitCount d + 1) := by
  obtain ⟨hnlo, hnhi⟩ := digitCount_spec hn
  obtain ⟨hdlo, hdhi⟩ := digitCount_spec hd
  have hd' : (0 : ℚ) < d := by exact_mod_cast hd
  have hpow (i j : Int) : (10 : ℚ) ^ i * 10 ^ j = 10 ^ (i + j) := (zpow_add₀ (by norm_num) i j).symm
  generalize (digitCount n : Int) = count at hnlo hnhi ⊢
  generalize (digitCount d : Int) = count' at hdlo hdhi ⊢
  rw [le_div_iff₀ hd', div_lt_iff₀ hd']
  constructor
  · calc (10 : ℚ) ^ (count - count' - 1) * d ≤ 10 ^ (count - count' - 1) * 10 ^ count' := by gcongr
      _ = 10 ^ (count - 1) := by
        rw [hpow]
        congr 1
        ring
      _ ≤ n := hnlo
  · calc (n : ℚ) < 10 ^ count := hnhi
      _ = 10 ^ (count - count' + 1) * 10 ^ (count' - 1) := by
        rw [hpow]
        congr 1
        ring
      _ ≤ 10 ^ (count - count' + 1) * d := by gcongr

/-- Comparing with a power of ten without dividing. -/
theorem mul_powerFraction_le_iff {n d : Nat} (hd : 0 < d) (e : Int) :
    d * (powerFraction 10 e).1 ≤ n * (powerFraction 10 e).2 ↔ (10 : ℚ) ^ e ≤ n / d := by
  obtain ⟨hpos, hten⟩ := powerFraction_eq 10 (by decide) e
  have hd' : (0 : ℚ) < d := by exact_mod_cast hd
  have hpos' : (0 : ℚ) < (powerFraction 10 e).2 := by exact_mod_cast hpos
  push_cast at hten
  rw [← hten, div_le_div_iff₀ hpos' hd', mul_comm ((powerFraction 10 e).1 : ℚ)]
  exact_mod_cast Iff.rfl

/-- **The decimal order** of a positive magnitude. -/
theorem decimalOrder_spec {m : Magnitude} (h : 0 < m.mantissa) :
    (10 : ℚ) ^ m.decimalOrder ≤ m.value ∧ m.value < 10 ^ (m.decimalOrder + 1) := by
  obtain ⟨hd, hvalue⟩ := scaledBy_eq m.mantissa m.exponent 0
  have hn : 0 < (m.scaled 0).1 := by
    show 0 < m.mantissa * 2 ^ m.exponent.toNat * 10 ^ (0 : Int).toNat
    positivity
  have hscaled : ((m.scaled 0).1 : ℚ) / (m.scaled 0).2 = m.value := by
    rw [scaled, hvalue, value, zpow_zero, mul_one]
  replace hd : 0 < (m.scaled 0).2 := hd
  unfold decimalOrder
  generalize m.scaled 0 = fraction at hd hn hscaled ⊢
  obtain ⟨n, d⟩ := fraction
  dsimp only at hd hn hscaled ⊢
  rw [← hscaled]
  obtain ⟨hmore, hless⟩ := digitCount_quotient hn hd
  -- the digits leave two orders, and a comparison decides between them
  split
  · rename_i htest
    exact ⟨(mul_powerFraction_le_iff hd _).mp htest, hless⟩
  · rename_i htest
    rw [Int.sub_add_cancel]
    exact ⟨hmore, lt_of_not_ge fun hge => htest ((mul_powerFraction_le_iff hd _).mpr hge)⟩

end Magnitude

/-! ### The order of the shortest digits -/

/-- The **decimal order** of a decimal number: that of its first digit. -/
def Decimal.order (d : Decimal) : Int :=
  (Magnitude.digitCount d.coefficient : Int) - 1 + d.exponent

/-- A zero at the end is a digit. -/
theorem Magnitude.digitCount_div_ten {n : Nat} (hn : 10 ≤ n) :
    digitCount n = digitCount (n / 10) + 1 := by
  rw [digitCount, Nat.toDigits_of_base_le (by decide) hn, List.length_append]
  rfl

/-- Dropping zeros **keeps the order**. -/
theorem Decimal.order_dropZeros (count : Nat) {d : Decimal} (hd : 0 < d.coefficient) :
    (d.dropZeros count).order = d.order := by
  induction count generalizing d with
  | zero => rfl
  | succ count ih =>
      rw [dropZeros]
      split
      · rename_i hzero
        have hten : 10 ≤ d.coefficient := by omega
        have hcount := Magnitude.digitCount_div_ten hten
        rw [ih (show 0 < d.coefficient / 10 by omega), order, order]
        dsimp only
        omega
      · rfl

/-- The search on a grid tries the **two neighbours** of the float. -/
theorem RoundingInterval.nearest?_eq_some {i : RoundingInterval} {places : Int} {c : Nat}
    (h : i.nearest? places = some c) :
    c = i.value * (Magnitude.scaledBy 1 i.exponent places).1 /
        (Magnitude.scaledBy 1 i.exponent places).2 ∨
      c = i.value * (Magnitude.scaledBy 1 i.exponent places).1 /
        (Magnitude.scaledBy 1 i.exponent places).2 + 1 := by
  unfold nearest? at h
  generalize Magnitude.scaledBy 1 i.exponent places = fraction at h ⊢
  obtain ⟨unit, d⟩ := fraction
  dsimp only at h ⊢
  have hnearest := roundHalfEven_cases (i.value * unit) d
  have hother : (if roundHalfEven (i.value * unit) d = i.value * unit / d
      then i.value * unit / d + 1 else i.value * unit / d) = i.value * unit / d ∨
      (if roundHalfEven (i.value * unit) d = i.value * unit / d
      then i.value * unit / d + 1 else i.value * unit / d) = i.value * unit / d + 1 := by
    split
    · exact .inr rfl
    · exact .inl rfl
  generalize (if roundHalfEven (i.value * unit) d = i.value * unit / d
    then i.value * unit / d + 1 else i.value * unit / d) = other at h hother
  generalize roundHalfEven (i.value * unit) d = nearest at h hnearest
  -- whichever of the two lies inside
  split_ifs at h
  all_goals
    obtain rfl := Option.some.inj h
    first | exact hnearest | exact hother

/-- A magnitude **on a decimal grid**: what the search rounds. -/
theorem Magnitude.scaledBy_roundingInterval (m : Magnitude) (places : Int) :
    0 < (scaledBy 1 m.roundingInterval.exponent places).2 ∧
      ((m.roundingInterval.value * (scaledBy 1 m.roundingInterval.exponent places).1 : Nat) : ℚ) /
        (scaledBy 1 m.roundingInterval.exponent places).2 = m.value * 10 ^ places := by
  obtain ⟨hd, hfraction⟩ := scaledBy_eq 1 m.roundingInterval.exponent places
  refine ⟨hd, ?_⟩
  have hfour : (2 : ℚ) ^ (m.exponent - 2) = 2 ^ m.exponent / 4 := by
    rw [zpow_sub₀ (by norm_num)]
    norm_num
  have hvalue : m.roundingInterval.value = 4 * m.mantissa := rfl
  have hexponent : m.roundingInterval.exponent = m.exponent - 2 := rfl
  push_cast
  rw [mul_div_assoc, hfraction, hvalue, hexponent, hfour, value]
  push_cast
  ring

/-- **What the search finds** on the grid with one more digit than `k`. -/
theorem Magnitude.nearest_bounds {m : Magnitude} (hm : 0 < m.mantissa) {k c : Nat}
    (h : m.roundingInterval.nearest? (k - m.decimalOrder) = some c) :
    10 ^ k ≤ c ∧ c ≤ 10 ^ (k + 1) ∧
      (c : ℚ) ≤ m.value * 10 ^ ((k : Int) - m.decimalOrder) + 1 := by
  obtain ⟨hlo, hhi⟩ := decimalOrder_spec hm
  obtain ⟨hd, hvalue⟩ := m.scaledBy_roundingInterval (k - m.decimalOrder)
  have hcases := RoundingInterval.nearest?_eq_some h
  generalize scaledBy 1 m.roundingInterval.exponent ((k : Int) - m.decimalOrder) = fraction
    at hd hvalue hcases
  obtain ⟨unit, d⟩ := fraction
  dsimp only at hd hvalue hcases
  generalize m.roundingInterval.value * unit = n at hvalue hcases
  have hscale : (0 : ℚ) < 10 ^ ((k : Int) - m.decimalOrder) := by positivity
  have hpow (j : Int) : (10 : ℚ) ^ j * 10 ^ ((k : Int) - m.decimalOrder) =
      10 ^ (j + ((k : Int) - m.decimalOrder)) := (zpow_add₀ (by norm_num) _ _).symm
  have hmore : 10 ^ k ≤ n / d := by
    rw [le_div_iff_cast, hvalue]
    calc ((10 ^ k : Nat) : ℚ) = 10 ^ m.decimalOrder * 10 ^ ((k : Int) - m.decimalOrder) := by
          rw [hpow, add_sub_cancel, zpow_natCast, Nat.cast_pow, Nat.cast_ofNat]
      _ ≤ m.value * 10 ^ ((k : Int) - m.decimalOrder) := by gcongr
  have hless : n / d < 10 ^ (k + 1) := by
    rw [← Nat.not_le, le_div_iff_cast, not_le, hvalue]
    calc m.value * 10 ^ ((k : Int) - m.decimalOrder)
        < 10 ^ (m.decimalOrder + 1) * 10 ^ ((k : Int) - m.decimalOrder) := by gcongr
      _ = ((10 ^ (k + 1) : Nat) : ℚ) := by
          rw [hpow, show m.decimalOrder + 1 + (k - m.decimalOrder) = ((k + 1 : Nat) : Int) by omega,
            zpow_natCast, Nat.cast_pow, Nat.cast_ofNat]
  have hfloor : ((n / d : Nat) : ℚ) ≤ n / d := Nat.cast_div_le
  rw [← hvalue]
  obtain rfl | rfl := hcases
  · exact ⟨hmore, hless.le, by linarith⟩
  · exact ⟨by omega, hless, by push_cast; linarith⟩
/-- **The shortest digits** are found on a grid, and zeros are dropped from them. -/
theorem shortestDecimal_cases (x : Float) :
    shortestDecimal x = ⟨isNegative x, 0, 17⟩ ∨
      ∃ k c : Nat, (Magnitude.ofFloat x).roundingInterval.nearest?
          (k - (Magnitude.ofFloat x).decimalOrder) = some c ∧
        shortestDecimal x = Decimal.dropZeros sufficientDigits
          ⟨isNegative x, c, (Magnitude.ofFloat x).decimalOrder - k⟩ := by
  simp only [shortestDecimal]
  cases hfound : List.findSome? _ (List.range sufficientDigits) with
  | none => exact .inl (by simp [Decimal.dropZeros, sufficientDigits])
  | some d =>
      obtain ⟨k, -, hk⟩ := List.exists_of_findSome?_eq_some hfound
      obtain ⟨c, hc, rfl⟩ := Option.map_eq_some_iff.mp hk
      exact .inr ⟨k, c, hc, rfl⟩

/-- What the decimal order of the shortest digits can be. -/
theorem order_shortestDecimal {x : Float} (hm : 0 < (Magnitude.ofFloat x).mantissa)
    (hfound : shortestDecimal x ≠ ⟨isNegative x, 0, 17⟩) :
    (Magnitude.ofFloat x).decimalOrder ≤ (shortestDecimal x).order ∧
      ((shortestDecimal x).order ≤ (Magnitude.ofFloat x).decimalOrder ∨
        ∃ k : Nat, (shortestDecimal x).order = (Magnitude.ofFloat x).decimalOrder + 1 ∧
          (10 : ℚ) ^ (k + 1) ≤ (Magnitude.ofFloat x).value *
            10 ^ ((k : Int) - (Magnitude.ofFloat x).decimalOrder) + 1) := by
  obtain hnone | ⟨k, c, hc, hx⟩ := shortestDecimal_cases x
  · exact absurd hnone hfound
  obtain ⟨hlo, hhi, hle⟩ := Magnitude.nearest_bounds hm hc
  have hpos : 0 < c := lt_of_lt_of_le (by positivity) hlo
  rw [hx, Decimal.order_dropZeros _ hpos, Decimal.order]
  dsimp only
  have hmore : k + 1 ≤ Magnitude.digitCount c := by
    by_contra hless
    obtain rfl | hk := Nat.eq_zero_or_pos k
    · have : 0 < Magnitude.digitCount c := List.length_pos_of_ne_nil Nat.toDigits_ne_nil
      omega
    · have := (Nat.length_toDigits_le_iff (by decide) hk).mp
        (show (Nat.toDigits 10 c).length ≤ k by unfold Magnitude.digitCount at hless; omega)
      omega
  refine ⟨by omega, ?_⟩
  obtain hlt | rfl := Nat.lt_or_eq_of_le hhi
  · have hless : Magnitude.digitCount c ≤ k + 1 :=
      (Nat.length_toDigits_le_iff (by decide) (Nat.succ_pos k)).mpr hlt
    exact .inl (by omega)
  · have hless : Magnitude.digitCount (10 ^ (k + 1)) ≤ k + 2 :=
      (Nat.length_toDigits_le_iff (by decide) (Nat.succ_pos _)).mpr
        (Nat.pow_lt_pow_right (by decide) (Nat.lt_succ_self _))
    obtain heq | hlt := Nat.eq_or_lt_of_le hless
    · refine .inr ⟨k, by omega, ?_⟩
      push_cast at hle
      exact hle
    · exact .inl (by omega)

/-- Digits that carry over to the order 16 come from a **greater value**. -/
theorem not_carry_of_lt {value : ℚ} (h : value < 2 ^ 52) (k : Nat) :
    ¬ (10 : ℚ) ^ (k + 1) ≤ value * 10 ^ ((k : Int) - 15) + 1 := by
  have hone : (1 : ℚ) ≤ 10 ^ k := one_le_pow₀ (by norm_num)
  have hbound : value * (10 : ℚ) ^ ((k : Int) - 15) ≤ 5 * 10 ^ k := by
    have hscale : (10 : ℚ) ^ ((k : Int) - 15) = 10 ^ k / 10 ^ 15 := by
      rw [zpow_sub₀ (by norm_num), zpow_natCast]
      norm_num
    calc value * (10 : ℚ) ^ ((k : Int) - 15) ≤ 2 ^ 52 * (10 ^ k / 10 ^ 15) := by
          rw [hscale]
          gcongr
      _ = 2 ^ 52 / 10 ^ 15 * 10 ^ k := by ring
      _ ≤ 5 * 10 ^ k := by
          gcongr
          norm_num
  rw [pow_succ]
  intro hcarry
  linarith

/-! ### Positional notation -/

/-- A number of a moderate order is written **without an exponent**. -/
theorem isPlainNumeral_digits {d : Decimal} (hlo : -4 ≤ d.order) (hhi : d.order < 16) :
    IsPlainNumeral (Layout.standard.digits d).toList := by
  have hdigits (c : Char) (hc : c ∈ Nat.toDigits 10 d.coefficient) : Text.isAsciiDigit c = true :=
    Text.isAsciiDigit_of_mem_toDigits c hc
  have hzeros (n : Nat) (c : Char) (hc : c ∈ List.replicate n '0') :
      Text.isAsciiDigit c = true := by
    rw [List.eq_of_mem_replicate hc]
    rfl
  have hne : Nat.toDigits 10 d.coefficient ≠ [] := Nat.toDigits_ne_nil
  have horder : ((Nat.toDigits 10 d.coefficient).length : Int) - 1 + d.exponent = d.order := rfl
  simp only [Layout.digits, horder]
  rw [if_pos (by simp [Layout.standard, hlo, hhi])]
  split
  · refine ⟨['0'], by simp, by simp; rfl, .inr ⟨List.replicate (-d.order - 1).toNat '0' ++
      Nat.toDigits 10 d.coefficient, fun c hc => ?_, ?_⟩⟩
    · exact (List.mem_append.mp hc).elim (hzeros _ c) (hdigits c)
    · simp [zeros]
  split
  · refine ⟨Nat.toDigits 10 d.coefficient ++ List.replicate d.exponent.toNat '0', by simp [hne],
      fun c hc => ?_, .inr ⟨['0'], by simp; rfl, ?_⟩⟩
    · exact (List.mem_append.mp hc).elim (hdigits c) (hzeros _ c)
    · simp [zeros, Layout.standard]
  · refine ⟨(Nat.toDigits 10 d.coefficient).take (d.order + 1).toNat, ?_,
      fun c hc => hdigits c (List.mem_of_mem_take hc),
      .inr ⟨(Nat.toDigits 10 d.coefficient).drop (d.order + 1).toNat,
        fun c hc => hdigits c (List.mem_of_mem_drop hc), ?_⟩⟩
    · rw [ne_eq, List.take_eq_nil_iff]
      exact fun h => h.elim (by omega) hne
    · simp

/-- The digits of a natural number are a numeral. -/
theorem isPlainNumeral_toDigits (n : Nat) : IsPlainNumeral (Nat.toDigits 10 n) :=
  ⟨_, Nat.toDigits_ne_nil, fun c hc => Text.isAsciiDigit_of_mem_toDigits c hc, .inl rfl⟩

/-! ### Reading numerals -/

/-- A numeral has digits and points only. -/
theorem IsPlainNumeral.isNumeralChar {cs : List Char} (h : IsPlainNumeral cs) :
    ∀ c ∈ cs, isNumeralChar c = true := by
  have digit {c : Char} (hc : Text.isAsciiDigit c = true) : Argand.isNumeralChar c = true := by
    rw [Argand.isNumeralChar, hc, Bool.true_or]
  obtain ⟨whole, -, hwhole, rfl | ⟨fraction, hfraction, rfl⟩⟩ := h
  · exact fun c hc => digit (hwhole c hc)
  · intro c hc
    obtain hc | hc := List.mem_append.mp hc
    · exact digit (hwhole c hc)
    · obtain rfl | hc := List.mem_cons.mp hc
      · rfl
      · exact digit (hfraction c hc)

/-- A numeral begins with a digit. -/
theorem IsPlainNumeral.exists_cons {cs : List Char} (h : IsPlainNumeral cs) :
    ∃ c rest, cs = c :: rest ∧ Text.isAsciiDigit c = true := by
  obtain ⟨whole, hne, hwhole, hcs⟩ := h
  obtain ⟨c, whole, rfl⟩ := List.exists_cons_of_ne_nil hne
  obtain rfl | ⟨fraction, -, rfl⟩ := hcs <;> exact ⟨c, _, rfl, hwhole c List.mem_cons_self⟩

/-- A numeral has one point at most. -/
theorem IsPlainNumeral.count_le {cs : List Char} (h : IsPlainNumeral cs) : cs.count '.' ≤ 1 := by
  have hzero {cs : List Char} (hcs : ∀ c ∈ cs, Text.isAsciiDigit c = true) : cs.count '.' = 0 := by
    refine List.count_eq_zero.mpr fun hpoint => ?_
    cases hcs _ hpoint
  obtain ⟨whole, -, hwhole, rfl | ⟨fraction, hfraction, rfl⟩⟩ := h
  · exact (hzero hwhole).le.trans (Nat.zero_le 1)
  · rw [List.count_append, List.count_cons_self, hzero hwhole, hzero hfraction]

/-- The digits and points. -/
theorem mem_numeralChars {c : Char} (h : isNumeralChar c = true) :
    c ∈ ['0', '1', '2', '3', '4', '5', '6', '7', '8', '9', '.'] := by
  rw [isNumeralChar, Bool.or_eq_true, decide_eq_true_eq] at h
  obtain hdigit | rfl := h
  · exact List.mem_append_left ['.'] (mem_digits hdigit)
  · exact List.mem_append_right ['0', '1', '2', '3', '4', '5', '6', '7', '8', '9'] (.head _)

/-- Digits and points are no margin and no underscore, and they are their own ASCII digits. -/
theorem plain_of_isNumeralChar {c : Char} (h : isNumeralChar c = true) :
    Text.isMargin c = false ∧ ((Text.digitValue? c).map Text.digitChar).getD c = c ∧ c ≠ '_' := by
  have hall : ['0', '1', '2', '3', '4', '5', '6', '7', '8', '9', '.'].all (fun c =>
      !Text.isMargin c && ((Text.digitValue? c).map Text.digitChar).getD c == c && c != '_') =
      true := by
    decide
  have hc := List.all_eq_true.mp hall c (mem_numeralChars h)
  simpa [and_assoc] using hc

/-- Where no character is trimmed, none is missing. -/
theorem trimChars_eq_self {p : Char → Bool} {cs : List Char} (h : ∀ c ∈ cs, p c = false) :
    Text.trimChars p cs = cs := by
  have hdrop (cs : List Char) (h : ∀ c ∈ cs, p c = false) : cs.dropWhile p = cs := by
    cases cs with
    | nil => rfl
    | cons c cs => exact List.dropWhile_cons_of_neg (by simp [h c List.mem_cons_self])
  rw [Text.trimChars, hdrop cs h, hdrop cs.reverse (by simpa using h), List.reverse_reverse]

/-- Where there is no underscore, none is dropped. -/
theorem dropUnderscores?_eq_self {cs : List Char} (h : ∀ c ∈ cs, c ≠ '_') {previous : Char}
    (hprevious : previous ≠ '_') : Text.dropUnderscores? previous cs = some cs := by
  induction cs generalizing previous with
  | nil => rw [Text.dropUnderscores?, if_neg hprevious]
  | cons c cs ih =>
      have hc := h c List.mem_cons_self
      rw [Text.dropUnderscores?, if_neg hc, if_neg (by simp [hprevious]),
        ih (fun d hd => h d (List.mem_cons_of_mem c hd)) hc, Option.map_some]

/-- No word begins with a digit. -/
theorem namedFloat?_of_isAsciiDigit {c : Char} (h : Text.isAsciiDigit c = true) (cs : List Char) :
    namedFloat? (String.ofList ((c :: cs).map Char.toLower)) = none := by
  have hall : ['0', '1', '2', '3', '4', '5', '6', '7', '8', '9'].all (fun c =>
      c.toLower != 'i' && c.toLower != 'n') = true := by
    decide
  have hc := List.all_eq_true.mp hall c (mem_digits h)
  rw [Bool.and_eq_true, bne_iff_ne, bne_iff_ne] at hc
  have hne {word : String} {d : Char} {ds : List Char} (hword : word.toList = d :: ds)
      (hd : c.toLower ≠ d) : String.ofList ((c :: cs).map Char.toLower) ≠ word := by
    rintro rfl
    rw [String.toList_ofList, List.map_cons] at hword
    exact hd (List.cons.inj hword).1
  have hinf : String.ofList ((c :: cs).map Char.toLower) ≠ "inf" := hne rfl hc.1
  have hinfinity : String.ofList ((c :: cs).map Char.toLower) ≠ "infinity" := hne rfl hc.1
  have hnan : String.ofList ((c :: cs).map Char.toLower) ≠ "nan" := hne rfl hc.2
  simp only [namedFloat?, hinf, hinfinity, hnan, decide_false, Bool.or_self, Bool.false_eq_true,
    if_false]

/-- **A numeral is the float of its decimal number.** -/
theorem readFloat?_of_isPlainNumeral {s : String} (h : IsPlainNumeral s.toList) :
    readFloat? s = (readNumeral? s.toList).map Decimal.toFloat := by
  have hnumeral := h.isNumeralChar
  obtain ⟨c, cs, hs, hdigit⟩ := h.exists_cons
  have hascii : Text.toAsciiDigits s.toList = s.toList :=
    (List.map_congr_left fun c hc => (plain_of_isNumeralChar (hnumeral c hc)).2.1).trans
      (List.map_id _)
  rw [readFloat?, trimChars_eq_self fun c hc => (plain_of_isNumeralChar (hnumeral c hc)).1, hascii]
  dsimp only
  rw [dropUnderscores?_eq_self (fun c hc => (plain_of_isNumeralChar (hnumeral c hc)).2.2)
    (by decide), hs, Option.bind_some, readSign_of_isAsciiDigit hdigit]
  simp only [namedFloat?_of_isAsciiDigit hdigit]

/-- The digits of a natural number **denote it**. -/
theorem readNumeral?_toDigits (n : Nat) :
    readNumeral? (Nat.toDigits 10 n) = some ⟨false, n, 0⟩ := by
  have hdigits := @Text.isAsciiDigit_of_mem_toDigits n
  obtain ⟨c, cs, hcs⟩ := List.exists_cons_of_ne_nil (@Nat.toDigits_ne_nil n 10)
  have hsign : readSign (Nat.toDigits 10 n) = (false, Nat.toDigits 10 n) := by
    rw [hcs]
    exact readSign_of_isAsciiDigit (hdigits c (hcs ▸ List.mem_cons_self))
  rw [readNumeral?, hsign]
  simp only [readUnsigned?, span_isAsciiDigit_all hdigits]
  simp [readFraction, readExponent?, Nat.toDigits_ne_nil]

/-! ### The order of floats -/

/-- The exponent decides which of two canonical floats is **greater**, and the mantissa between
equal exponents. -/
theorem value_lt_of_lex {s : UnpackedFloat.Sign} {m m' : Nat} {e e' : Int} {hm : 0 < m}
    {hm' : 0 < m'} (h : IsCanonical (.finite s m e hm)) (h' : IsCanonical (.finite s m' e' hm'))
    (hlex : e < e' ∨ e = e' ∧ m < m') : (m : ℚ) * 2 ^ e < m' * 2 ^ e' := by
  obtain hexponent | ⟨rfl, hmantissa⟩ := hlex
  · -- a larger exponent goes with a full mantissa
    have hless : (m : ℚ) < 2 ^ 53 := by
      have : m < 2 ^ 53 := by cases h <;> omega
      exact_mod_cast this
    have hfull : (2 : ℚ) ^ 52 ≤ m' := by
      have : 2 ^ 52 ≤ m' := by cases h <;> cases h' <;> omega
      exact_mod_cast this
    calc (m : ℚ) * 2 ^ e < 2 ^ 53 * 2 ^ e := by gcongr
      _ = 2 ^ 52 * 2 ^ (e + 1) := by
        rw [zpow_add_one₀ two_ne_zero]
        ring
      _ ≤ m' * 2 ^ e' := by
        gcongr
        · norm_num
        · omega
  · gcongr

section Order

variable {x y : Float} (hx : IsPositive x) (hy : IsPositive y)

include hx hy

/-- A smaller float has a **smaller value**. -/
theorem IsPositive.value_lt_value (h : x < y) :
    (Magnitude.ofFloat x).value < (Magnitude.ofFloat y).value := by
  obtain ⟨m, e, hm, hu⟩ := hx
  obtain ⟨m', e', hm', hu'⟩ := hy
  have hcompare : (UnpackedFloat.compare x.toModel.unpack y.toModel.unpack == some .lt) = true :=
    of_decide_eq_true h
  rw [hu, hu'] at hcompare
  replace hcompare : ((compare e e').then (compare m m')) = .lt :=
    Option.some.inj (eq_of_beq hcompare)
  rw [magnitude_of_unpack hu, magnitude_of_unpack hu']
  refine value_lt_of_lex (hu ▸ (unpack_spec x.toModel).1) (hu' ▸ (unpack_spec y.toModel).1) ?_
  rw [Ordering.then_eq_lt] at hcompare
  obtain hlt | ⟨heq, hlt⟩ := hcompare
  · exact .inl (Int.compare_eq_lt.mp hlt)
  · exact .inr ⟨Int.compare_eq_eq.mp heq, Nat.compare_eq_lt.mp hlt⟩

theorem IsPositive.value_le_value (h : x ≤ y) :
    (Magnitude.ofFloat x).value ≤ (Magnitude.ofFloat y).value := by
  obtain ⟨m, e, hm, hu⟩ := hx
  obtain ⟨m', e', hm', hu'⟩ := hy
  have hcompare : (UnpackedFloat.compare x.toModel.unpack y.toModel.unpack).any (·.isLE) = true :=
    of_decide_eq_true h
  rw [hu, hu'] at hcompare
  replace hcompare : ((compare e e').then (compare m m')).isLE = true := hcompare
  rw [magnitude_of_unpack hu, magnitude_of_unpack hu']
  have hlex : (e < e' ∨ e = e' ∧ m < m') ∨ e = e' ∧ m = m' := by
    cases hexponent : compare e e' with
    | lt => exact .inl (.inl (Int.compare_eq_lt.mp hexponent))
    | gt =>
        rw [hexponent] at hcompare
        cases hcompare
    | eq =>
        rw [hexponent, Ordering.eq_then] at hcompare
        have heq := Int.compare_eq_eq.mp hexponent
        obtain hlt | hsame := Nat.lt_or_eq_of_le (Nat.isLE_compare.mp hcompare)
        · exact .inl (.inr ⟨heq, hlt⟩)
        · exact .inr ⟨heq, hsame⟩
  obtain hless | ⟨rfl, rfl⟩ := hlex
  · exact (value_lt_of_lex (hu ▸ (unpack_spec x.toModel).1) (hu' ▸ (unpack_spec y.toModel).1)
      hless).le
  · exact le_rfl

end Order

/-! ### Positive parts -/

section Positive

variable {y : Float} (hy : IsPositive y)

include hy

/-- The value of a float that is not too small. -/
theorem IsPositive.value_of_le (hle : 1e-4 ≤ y) :
    (10 : ℚ) ^ (-4 : Int) ≤ (Magnitude.ofFloat y).value := by
  have hleast : (1e-4 : Float).toModel.unpack =
      .finite .positive 7378697629483821 (-66) (by decide) := rfl
  have hvalue := IsPositive.value_le_value ⟨_, _, _, hleast⟩ hy hle
  rw [magnitude_of_unpack hleast] at hvalue
  refine le_trans ?_ hvalue
  rw [Magnitude.value]
  norm_num

/-- The value of a float with bits after the point. -/
theorem IsPositive.value_lt (hwhole : wholePart? y = none) :
    0 < (Magnitude.ofFloat y).mantissa ∧ (Magnitude.ofFloat y).value < 2 ^ 52 := by
  obtain ⟨m, e, hm, hu⟩ := hy
  have hexponent := exponent_neg_of_wholePart? hu hwhole
  have hlt : (m : ℚ) < 2 ^ 53 := by exact_mod_cast (bounds_of_unpack hu).1
  rw [magnitude_of_unpack hu, Magnitude.value]
  refine ⟨hm, ?_⟩
  calc (m : ℚ) * 2 ^ e ≤ m * 2 ^ (-1 : Int) := by
        gcongr
        · norm_num
        · omega
    _ < 2 ^ 53 * 2 ^ (-1 : Int) := by gcongr
    _ = 2 ^ 52 := by norm_num

/-- **The order of a part that is no whole number** and not too small is moderate. -/
theorem IsPositive.order_bounds (hle : 1e-4 ≤ y) (hwhole : wholePart? y = none)
    (hfound : shortestDecimal y ≠ ⟨false, 0, 17⟩) :
    -4 ≤ (shortestDecimal y).order ∧ (shortestDecimal y).order < 16 := by
  have hleast := hy.value_of_le hle
  obtain ⟨hm, hgreatest⟩ := hy.value_lt hwhole
  obtain ⟨hlo, hhi⟩ := Magnitude.decimalOrder_spec hm
  obtain ⟨hge, hcases⟩ := order_shortestDecimal hm (hy.isNegative.symm ▸ hfound)
  generalize (Magnitude.ofFloat y).decimalOrder = order at hlo hhi hge hcases
  generalize (Magnitude.ofFloat y).value = value at hlo hhi hleast hgreatest hcases
  have hmore : -4 < order + 1 :=
    (zpow_lt_zpow_iff_right₀ (by norm_num : (1 : ℚ) < 10)).mp (hleast.trans_lt hhi)
  have hless : order < 16 := by
    refine (zpow_lt_zpow_iff_right₀ (by norm_num : (1 : ℚ) < 10)).mp ?_
    calc (10 : ℚ) ^ order ≤ value := hlo
      _ < 2 ^ 52 := hgreatest
      _ < 10 ^ (16 : Int) := by norm_num
  refine ⟨by omega, ?_⟩
  obtain hsame | ⟨k, hnext, hcarry⟩ := hcases
  · omega
  · by_contra hlarge
    obtain rfl : order = 15 := by omega
    exact not_carry_of_lt hgreatest k hcarry

/-! ### The text of a part -/

/-- The text of a whole part **denotes the part**. -/
theorem IsPositive.partText_whole {n : Int} (hwhole : wholePart? y = some n) :
    IsPlainNumeral (Number.partText y).toList ∧ readFloat? (Number.partText y) = some y := by
  obtain ⟨m, e, hm, hu⟩ := hy
  obtain ⟨k, rfl, -, hk⟩ := exists_of_wholePart? hu hwhole
  have hdigits : (Number.partText y).toList = Nat.toDigits 10 k := by
    rw [Number.partText, hwhole]
    exact Nat.toList_repr
  have hplain : IsPlainNumeral (Number.partText y).toList := hdigits ▸ isPlainNumeral_toDigits k
  refine ⟨hplain, ?_⟩
  rw [readFloat?_of_isPlainNumeral hplain, hdigits, readNumeral?_toDigits]
  exact congrArg some (ofScientific_whole hu hk)

/-- **The text of a part is a numeral that denotes the part**, if the part is not too small and its
shortest digits denote it. -/
theorem IsPositive.partText_spec (hle : 1e-4 ≤ y) (hread : readFloat? (floatText y) = some y) :
    IsPlainNumeral (Number.partText y).toList ∧ readFloat? (Number.partText y) = some y := by
  cases hwhole : wholePart? y with
  | some n => exact hy.partText_whole hwhole
  | none =>
      have htext : floatText y = Layout.standard.digits (shortestDecimal y) := by
        have := hy.floatText_withSign false
        rwa [if_neg Bool.false_ne_true, String.empty_append] at this
      have hfound : shortestDecimal y ≠ ⟨false, 0, 17⟩ := by
        intro hnone
        have hzero : readFloat? (Layout.standard.digits ⟨false, 0, 17⟩) = some 0 := by
          decide +kernel
        rw [htext, hnone, hzero] at hread
        obtain rfl := Option.some.inj hread
        cases hy.beq_zero
      have hpart : Number.partText y = floatText y := by rw [Number.partText, hwhole]
      obtain ⟨hlo, hhi⟩ := hy.order_bounds hle hwhole hfound
      rw [hpart]
      exact ⟨htext ▸ isPlainNumeral_digits hlo hhi, hread⟩

end Positive

end Argand
