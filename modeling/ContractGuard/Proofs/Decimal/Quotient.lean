import ContractGuard.Proofs.Decimal.Rounding
import Mathlib.Data.Nat.Cast.Field
import Mathlib.Data.Nat.Cast.Order.Field

/-!
# Quotients of decimals

A quotient is computed to two digits more than the context keeps. If it ends there it
is exact, and otherwise it is off by less than one unit of its last digit. Cutting the
fitted quotient at an early digit therefore cuts the true quotient.
-/

namespace ContractGuard

namespace Scaled

variable {x y : Scaled} {precision : ℕ}

theorem stripZeros_mul (count n : ℕ) (place : ℤ) :
    ((stripZeros count n place).1 : ℚ) * 10 ^ (stripZeros count n place).2 = n * 10 ^ place := by
  induction count generalizing n place with
  | zero => rfl
  | succ count ih =>
    simp only [stripZeros]
    split_ifs with h
    · have hn : n / 10 * 10 = n := Nat.div_mul_cancel (Nat.dvd_of_mod_eq_zero h)
      have hq : ((n / 10 : ℕ) : ℚ) * 10 = n := by exact_mod_cast hn
      rw [ih, add_comm, zpow_ten_add, zpow_one, ← mul_assoc, hq]
    · rfl

def shift (precision : ℕ) (x y : Scaled) : ℤ :=
  digitCount y.coefficient - digitCount x.coefficient + precision + 1

def numerator (precision : ℕ) (x y : Scaled) : ℕ :=
  x.coefficient * tenPow (shift precision x y).toNat

def denominator (precision : ℕ) (x y : Scaled) : ℕ :=
  y.coefficient * tenPow (-shift precision x y).toNat

def quotientPlace (precision : ℕ) (x y : Scaled) : ℤ :=
  x.exponent - y.exponent - shift precision x y

theorem denominator_pos (hy : y.coefficient ≠ 0) : 0 < denominator precision x y :=
  Nat.mul_pos (Nat.pos_of_ne_zero hy) (tenPow_pos _)

theorem tenPow_div (i : ℤ) : (tenPow i.toNat : ℚ) / tenPow (-i).toNat = 10 ^ i := by
  rw [tenPow_cast, tenPow_cast, ← zpow_natCast, ← zpow_natCast, ← zpow_sub₀ (by norm_num)]
  congr 1
  omega

theorem numerator_div (precision : ℕ) (x : Scaled) (hy : y.coefficient ≠ 0) :
    (numerator precision x y : ℚ) / denominator precision x y *
      10 ^ quotientPlace precision x y = x.magnitude / y.magnitude := by
  have hyq : (y.coefficient : ℚ) ≠ 0 := Nat.cast_ne_zero.mpr hy
  simp only [numerator, denominator, quotientPlace, magnitude]
  push_cast
  rw [mul_div_mul_comm, tenPow_div, zpow_sub₀ (by norm_num), zpow_sub₀ (by norm_num)]
  have := zpow_ten_ne_zero (shift precision x y)
  have := zpow_ten_ne_zero y.exponent
  field_simp

theorem div_eq (hx : x.coefficient ≠ 0) :
    x.div precision y =
      if numerator precision x y % denominator precision x y = 0 then
        ⟨x.negative != y.negative,
          (stripZeros (shift precision x y).toNat
            (numerator precision x y / denominator precision x y)
            (quotientPlace precision x y)).1,
          (stripZeros (shift precision x y).toNat
            (numerator precision x y / denominator precision x y)
            (quotientPlace precision x y)).2⟩
      else ⟨x.negative != y.negative,
        if numerator precision x y / denominator precision x y % 5 = 0 then
          numerator precision x y / denominator precision x y + 1
        else numerator precision x y / denominator precision x y,
        quotientPlace precision x y⟩ := by
  simp only [div]
  rw [if_neg hx]
  rfl

theorem div_negative : (x.div precision y).negative = (x.negative != y.negative) := by
  by_cases hx : x.coefficient = 0
  · simp [div, hx]
  · rw [div_eq hx]
    split_ifs <;> rfl

theorem div_magnitude_of_dvd (hx : x.coefficient ≠ 0) (hy : y.coefficient ≠ 0)
    (h : denominator precision x y ∣ numerator precision x y) :
    (x.div precision y).magnitude = x.magnitude / y.magnitude := by
  have hd : (denominator precision x y : ℚ) ≠ 0 := Nat.cast_ne_zero.mpr (denominator_pos hy).ne'
  rw [div_eq hx, if_pos (Nat.mod_eq_zero_of_dvd h), ← numerator_div precision x hy,
    ← Nat.cast_div h hd]
  exact stripZeros_mul _ _ _

theorem abs_sub_div_le_one (n : ℕ) {d c : ℕ} (hd : 0 < d) (hlow : n / d ≤ c)
    (hhigh : c ≤ n / d + 1) : |(c : ℚ) - n / d| ≤ 1 := by
  have hd' : (0 : ℚ) < d := by exact_mod_cast hd
  have hn : (n / d : ℕ) ≤ (n : ℚ) / d := Nat.cast_div_le
  have hn' : (n : ℚ) / d < (n / d : ℕ) + 1 := by
    rw [div_lt_iff₀ hd']
    exact_mod_cast Nat.lt_mul_of_div_lt (Nat.lt_succ_self (n / d)) hd
  have hlow' : ((n / d : ℕ) : ℚ) ≤ c := by exact_mod_cast hlow
  have hhigh' : (c : ℚ) ≤ (n / d : ℕ) + 1 := by exact_mod_cast hhigh
  rw [abs_le]
  constructor <;> linarith

theorem zpow_le_quotient (hx : x.coefficient ≠ 0) (hy : y.coefficient ≠ 0) :
    (10 : ℚ) ^ (quotientPlace precision x y + precision) ≤ x.magnitude / y.magnitude := by
  rw [le_div_iff₀ (magnitude_pos hy)]
  calc (10 : ℚ) ^ (quotientPlace precision x y + precision) * y.magnitude
      ≤ 10 ^ (quotientPlace precision x y + precision) *
          10 ^ (digitCount y.coefficient + y.exponent) :=
        mul_le_mul_of_nonneg_left (lt_zpow_digitCount _ _).le (zpow_ten_pos _).le
    _ = 10 ^ (digitCount x.coefficient + x.exponent - 1) := by
        rw [← zpow_ten_add]
        congr 1
        simp only [quotientPlace, shift]
        ring
    _ ≤ x.magnitude := zpow_digitCount_le hx _

theorem div_near (hx : x.coefficient ≠ 0) (hy : y.coefficient ≠ 0) :
    |(x.div precision y).magnitude - x.magnitude / y.magnitude| ≤
      10 ^ (-precision : ℤ) * (x.magnitude / y.magnitude) := by
  by_cases hdvd : denominator precision x y ∣ numerator precision x y
  · rw [div_magnitude_of_dvd hx hy hdvd, sub_self, abs_zero]
    exact mul_nonneg (zpow_ten_pos _).le (div_nonneg x.magnitude_nonneg y.magnitude_nonneg)
  · have hone : |((x.div precision y).coefficient : ℚ) -
        numerator precision x y / denominator precision x y| ≤ 1 := by
      rw [div_eq hx, if_neg (mt Nat.dvd_of_mod_eq_zero hdvd)]
      refine abs_sub_div_le_one _ (denominator_pos hy) ?_ ?_
      · dsimp only
        split_ifs <;> omega
      · dsimp only
        split_ifs <;> omega
    have hexp : (x.div precision y).exponent = quotientPlace precision x y := by
      rw [div_eq hx, if_neg (mt Nat.dvd_of_mod_eq_zero hdvd)]
    have hplace := zpow_ten_pos (quotientPlace precision x y)
    calc |(x.div precision y).magnitude - x.magnitude / y.magnitude|
        = |((x.div precision y).coefficient : ℚ) -
            numerator precision x y / denominator precision x y| *
              10 ^ quotientPlace precision x y := by
          rw [← numerator_div precision x hy, magnitude, hexp, ← sub_mul, abs_mul,
            abs_of_pos hplace]
      _ ≤ 1 * 10 ^ quotientPlace precision x y := mul_le_mul_of_nonneg_right hone hplace.le
      _ = 10 ^ (-precision : ℤ) * 10 ^ (quotientPlace precision x y + precision) := by
          rw [← zpow_ten_add, one_mul]
          congr 1
          ring
      _ ≤ 10 ^ (-precision : ℤ) * (x.magnitude / y.magnitude) :=
          mul_le_mul_of_nonneg_left (zpow_le_quotient hx hy) (zpow_ten_pos _).le

theorem div_exact {s c : ℕ} (hy : y.coefficient ≠ 0)
    (hq : x.magnitude / y.magnitude = c * 10 ^ (-s : ℤ)) (hc : c < 10 ^ precision) :
    (x.div precision y).magnitude = x.magnitude / y.magnitude := by
  by_cases hx : x.coefficient = 0
  · rw [magnitude_eq_zero.mpr hx, zero_div, magnitude_eq_zero]
    simp [div, hx]
  refine div_magnitude_of_dvd hx hy ?_
  have hplace : quotientPlace precision x y ≤ -s := by
    have hlt : (10 : ℚ) ^ (quotientPlace precision x y + precision) < 10 ^ (precision - s : ℤ) := by
      have hc' : (c : ℚ) < 10 ^ precision := by exact_mod_cast hc
      calc (10 : ℚ) ^ (quotientPlace precision x y + precision)
          ≤ c * 10 ^ (-s : ℤ) := hq ▸ zpow_le_quotient hx hy
        _ < 10 ^ precision * 10 ^ (-s : ℤ) := mul_lt_mul_of_pos_right hc' (zpow_ten_pos _)
        _ = 10 ^ (precision - s : ℤ) := by
            rw [← zpow_natCast, ← zpow_ten_add, sub_eq_add_neg]
    have := lt_of_zpow_ten_lt hlt
    omega
  have hd : (denominator precision x y : ℚ) ≠ 0 := Nat.cast_ne_zero.mpr (denominator_pos hy).ne'
  have hnum := numerator_div precision x hy
  rw [hq, ← tenPow_toNat_mul hplace, ← mul_assoc] at hnum
  have hdiv := mul_right_cancel₀ (zpow_ten_ne_zero _) hnum
  rw [div_eq_iff hd] at hdiv
  refine ⟨c * tenPow (-s - quotientPlace precision x y).toNat, ?_⟩
  rw [mul_comm]
  exact_mod_cast hdiv

theorem val_div (x y : Scaled) :
    x.val / y.val =
      if x.negative != y.negative then -(x.magnitude / y.magnitude)
      else x.magnitude / y.magnitude := by
  rw [val_eq_magnitude x, val_eq_magnitude y]
  cases x.negative <;> cases y.negative <;> simp [neg_div, div_neg]

end Scaled

namespace Context

variable {ctx : Context} {x y z w : Scaled} {a b n s : ℕ}

theorem half_le_of_near {q r u : ℚ} (hq : 0 < q) (hu : u ≤ 1 / 100) (h : |r - q| ≤ u * q) :
    q / 2 ≤ r := by
  obtain ⟨hlow, _⟩ := abs_le.mp h
  nlinarith

/-- The error of a division and the error of fitting its result add up. -/
theorem abs_sub_le_of_near {q r z u : ℚ} (hq : 0 < q) (hu : 0 < u) (hsmall : u ≤ 1 / 100)
    (hr : |r - q| ≤ u * q) (hz : |z - r| ≤ 10 * u * r) : |z - q| ≤ 100 * u * q := by
  obtain ⟨_, hhigh⟩ := abs_le.mp hr
  have htwice : r ≤ 2 * q := by nlinarith
  calc |z - q| ≤ |z - r| + |r - q| := abs_sub_le _ _ _
    _ ≤ 10 * u * (2 * q) + u * q := by
        refine add_le_add (hz.trans ?_) hr
        exact mul_le_mul_of_nonneg_left htwice (by positivity)
    _ ≤ 100 * u * q := by nlinarith [mul_pos hu hq]

structure Divides (ctx : Context) (n s : ℕ) : Prop where
  digits : n + s + 2 ≤ ctx.precision
  tiny : ctx.tiny ≤ -s
  top : n ≤ ctx.maxExponent
  bottom : ctx.minExponent < -n

section

variable (hctx : ctx.Divides n s) (hx : x.magnitude = a * 10 ^ (-s : ℤ))
  (hy : y.magnitude = b * 10 ^ (-s : ℤ)) (ha : a < 10 ^ n) (hb : 0 < b)

include hx hy in
theorem magnitude_div : x.magnitude / y.magnitude = a / b := by
  rw [hx, hy, mul_div_mul_right _ _ (zpow_ten_ne_zero _)]

include hy hb in
theorem coefficient_ne_zero : y.coefficient ≠ 0 := by
  intro hz
  rw [Scaled.magnitude_eq_zero.mpr hz, eq_comm, mul_eq_zero,
    or_iff_left (zpow_ten_ne_zero _)] at hy
  exact hb.ne' (Nat.cast_eq_zero.mp hy)

include hctx hb in
theorem zpow_le_half_quotient (ha0 : 0 < a) (hbn : b < 10 ^ n) :
    (10 : ℚ) ^ (ctx.tiny + ctx.precision - 1) ≤ (a / b : ℚ) / 2 := by
  have hbottom := hctx.bottom
  have hbn' : (b : ℚ) < 10 ^ n := by exact_mod_cast hbn
  have hb' : (0 : ℚ) < b := by exact_mod_cast hb
  have ha' : (1 : ℚ) ≤ a := by exact_mod_cast ha0
  calc (10 : ℚ) ^ (ctx.tiny + ctx.precision - 1)
      ≤ 10 ^ (-1 - n : ℤ) := zpow_ten_le (by unfold tiny; omega)
    _ = 1 / 10 ^ n / 10 := by
        rw [sub_eq_add_neg, zpow_ten_add, zpow_neg, zpow_neg, zpow_natCast]
        ring
    _ ≤ 1 / b / 10 := by gcongr
    _ ≤ (a / b : ℚ) / 2 := by
        have hle : (1 : ℚ) / b ≤ a / b := by gcongr
        have hpos : (0 : ℚ) < 1 / b := by positivity
        linarith

include hctx hx hy ha hb

theorem fit_div_exact (hdvd : b ∣ a * 10 ^ s) (hz : ctx.fit (x.div ctx.precision y) = .ok z) :
    z.magnitude = x.magnitude / y.magnitude := by
  obtain ⟨hdigits, htiny, htop, _⟩ := hctx
  have hb' : (1 : ℚ) ≤ b := by exact_mod_cast hb
  have hmag := magnitude_div hx hy
  have hq : x.magnitude / y.magnitude = (a * 10 ^ s / b : ℕ) * 10 ^ (-s : ℤ) := by
    rw [hmag, Nat.cast_div hdvd (by positivity), zpow_neg, zpow_natCast]
    push_cast
    field_simp
  have hc : a * 10 ^ s / b < 10 ^ ctx.precision := by
    calc a * 10 ^ s / b ≤ a * 10 ^ s := Nat.div_le_self _ _
      _ < 10 ^ n * 10 ^ s := Nat.mul_lt_mul_of_pos_right ha (Nat.pow_pos (by decide))
      _ = 10 ^ (n + s) := (Nat.pow_add 10 n s).symm
      _ ≤ 10 ^ ctx.precision := Nat.pow_le_pow_right (by decide) (by omega)
  have hr := Scaled.div_exact (coefficient_ne_zero hy hb) hq hc
  have hlt : (x.div ctx.precision y).magnitude < 10 ^ (ctx.maxExponent + 1) := by
    have ha' : (a : ℚ) < 10 ^ n := by exact_mod_cast ha
    calc (x.div ctx.precision y).magnitude = a / b := hr.trans hmag
      _ ≤ a := div_le_self (Nat.cast_nonneg a) hb'
      _ < 10 ^ (n : ℤ) := by rwa [zpow_natCast]
      _ ≤ 10 ^ (ctx.maxExponent + 1) := zpow_ten_le (by omega)
  obtain ⟨z', hz', _, hm⟩ := fit_exact (hr.trans hq) hc htiny hlt
  obtain rfl : z' = z := by simpa [hz'] using hz
  exact hm.trans hr

omit ha in
theorem fit_div_near (hbn : b < 10 ^ n) (hdvd : ¬ b ∣ a * 10 ^ s)
    (hz : ctx.fit (x.div ctx.precision y) = .ok z) :
    |z.magnitude - x.magnitude / y.magnitude| ≤
      10 ^ (2 - ctx.precision : ℤ) * (x.magnitude / y.magnitude) := by
  have hdigits := hctx.digits
  have ha0 : 0 < a := by
    apply Nat.pos_of_ne_zero
    intro h0
    simp [h0] at hdvd
  have hmag := magnitude_div hx hy
  have hxc := coefficient_ne_zero hx ha0
  have hyc := coefficient_ne_zero hy hb
  have hqpos : 0 < x.magnitude / y.magnitude :=
    div_pos (Scaled.magnitude_pos hxc) (Scaled.magnitude_pos hyc)
  have hupos : (0 : ℚ) < 10 ^ (-ctx.precision : ℤ) := zpow_ten_pos _
  have husmall : (10 : ℚ) ^ (-ctx.precision : ℤ) ≤ 1 / 100 := by
    calc (10 : ℚ) ^ (-ctx.precision : ℤ) ≤ 10 ^ (-2 : ℤ) := zpow_ten_le (by omega)
      _ = 1 / 100 := by norm_num
  have hr : |(x.div ctx.precision y).magnitude - x.magnitude / y.magnitude| ≤
      10 ^ (-ctx.precision : ℤ) * (x.magnitude / y.magnitude) := Scaled.div_near hxc hyc
  have hhalf := half_le_of_near hqpos husmall hr
  have hrc : (x.div ctx.precision y).coefficient ≠ 0 := by
    intro h0
    have := Scaled.magnitude_eq_zero.mpr h0
    linarith
  have hlow := zpow_le_half_quotient hctx hb ha0 hbn
  rw [← hmag] at hlow
  have hfit := fit_near (by omega) hz hrc (hlow.trans hhalf)
  have hten : (10 : ℚ) ^ (1 - ctx.precision : ℤ) = 10 * 10 ^ (-ctx.precision : ℤ) := by
    rw [sub_eq_add_neg, zpow_ten_add, zpow_one]
  have hhundred : (10 : ℚ) ^ (2 - ctx.precision : ℤ) = 100 * 10 ^ (-ctx.precision : ℤ) := by
    rw [sub_eq_add_neg, zpow_ten_add]
    norm_num only
  rw [hten] at hfit
  rw [hhundred]
  exact abs_sub_le_of_near hqpos hupos husmall hr hfit

theorem floor_fit_div (hbn : b < 10 ^ n) (hz : ctx.fit (x.div ctx.precision y) = .ok z) :
    ⌊z.magnitude * 10 ^ (s : ℤ)⌋ = ⌊x.magnitude / y.magnitude * 10 ^ (s : ℤ)⌋ := by
  have hmag := magnitude_div hx hy
  by_cases hdvd : b ∣ a * 10 ^ s
  · rw [fit_div_exact hctx hx hy ha hb hdvd hz]
  -- the quotient is no multiple of the last place, and too far from one for the error
  have hnear := fit_div_near hctx hx hy hb hbn hdvd hz
  have hb' : (0 : ℚ) < b := by exact_mod_cast hb
  have ha' : (a : ℚ) < 10 ^ n := by exact_mod_cast ha
  have hscaled : x.magnitude / y.magnitude * 10 ^ (s : ℤ) = (a * 10 ^ s : ℕ) / b := by
    rw [hmag, zpow_natCast]
    push_cast
    ring
  have hclose : |z.magnitude * 10 ^ (s : ℤ) - (a * 10 ^ s : ℕ) / b| * b < 1 := by
    calc |z.magnitude * 10 ^ (s : ℤ) - (a * 10 ^ s : ℕ) / b| * b
        = |z.magnitude - x.magnitude / y.magnitude| * 10 ^ (s : ℤ) * b := by
          rw [← hscaled, ← sub_mul, abs_mul, abs_of_pos (zpow_ten_pos _)]
      _ ≤ 10 ^ (2 - ctx.precision : ℤ) * (a / b) * 10 ^ (s : ℤ) * b := by
          rw [← hmag]
          gcongr
      _ = 10 ^ (2 - ctx.precision : ℤ) * 10 ^ (s : ℤ) * a := by field_simp
      _ < 10 ^ (2 - ctx.precision : ℤ) * 10 ^ (s : ℤ) * 10 ^ (n : ℤ) := by
          rw [zpow_natCast 10 n]
          gcongr
      _ = 10 ^ (2 - ctx.precision + s + n : ℤ) := by rw [zpow_ten_add, zpow_ten_add]
      _ ≤ 10 ^ (0 : ℤ) := zpow_ten_le (by have := hctx.digits; omega)
      _ = 1 := zpow_zero _
  rw [hscaled, floor_eq_of_near hb hdvd hclose, Rat.floor_natCast_div_natCast]
  rfl

theorem quantize_div (hbn : b < 10 ^ n) (hz : ctx.fit (x.div ctx.precision y) = .ok z)
    (hw : Quantized .towardZero z (-s) w) : w.val = cut s (x.val / y.val) := by
  have hfloor := floor_fit_div hctx hx hy ha hb hbn hz
  have hznonneg : 0 ≤ z.magnitude * 10 ^ (s : ℤ) :=
    mul_nonneg z.magnitude_nonneg (zpow_ten_pos _).le
  have hqnonneg : 0 ≤ x.magnitude / y.magnitude * 10 ^ (s : ℤ) :=
    mul_nonneg (div_nonneg x.magnitude_nonneg y.magnitude_nonneg) (zpow_ten_pos _).le
  have hcut : cut s z.magnitude = cut s (x.magnitude / y.magnitude) := by
    simp only [cut]
    rw [whole_of_nonneg hznonneg, whole_of_nonneg hqnonneg, hfloor]
  rw [hw.val_eq_cut, neg_neg, Scaled.val_div, Scaled.val_eq_magnitude, fit_negative hz,
    Scaled.div_negative]
  split_ifs
  · rw [cut_neg, cut_neg, hcut]
  · exact hcut

end

end Context

end ContractGuard
