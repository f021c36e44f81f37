import ContractGuard.Proofs.Decimal.Value
import Mathlib.Data.Rat.Floor

/-!
# Rounding as an operation on numbers

Cutting a number off at a digit, on the rationals, and what fitting and quantizing a
decimal do to the number that it stands for. Fitting loses nothing as long as the
number has few enough digits, and never more than one unit of the last digit kept.
-/

namespace ContractGuard

def whole (q : ℚ) : ℤ := if 0 ≤ q then ⌊q⌋ else -⌊-q⌋

def cut (digits : ℤ) (q : ℚ) : ℚ := whole (q * 10 ^ digits) * 10 ^ (-digits)

theorem whole_of_nonneg {q : ℚ} (h : 0 ≤ q) : whole q = ⌊q⌋ := if_pos h

theorem whole_neg (q : ℚ) : whole (-q) = -whole q := by
  simp only [whole]
  rcases lt_trichotomy q 0 with h | rfl | h
  · rw [if_pos (by linarith), if_neg (by linarith), neg_neg]
  · simp
  · rw [if_neg (by linarith), if_pos h.le, neg_neg]

@[simp] theorem whole_intCast (n : ℤ) : whole n = n := by
  simp only [whole]
  split_ifs
  · exact Int.floor_intCast n
  · rw [← Int.cast_neg, Int.floor_intCast, neg_neg]

theorem cut_neg (digits : ℤ) (q : ℚ) : cut digits (-q) = -cut digits q := by
  simp only [cut]
  rw [neg_mul, whole_neg, Int.cast_neg, neg_mul]

theorem cut_mul_zpow (digits : ℤ) (q : ℚ) :
    cut digits q * 10 ^ digits = whole (q * 10 ^ digits) := by
  simp only [cut]
  rw [mul_assoc, ← zpow_ten_add, neg_add_cancel, zpow_zero, mul_one]

theorem cut_zero_digits (q : ℚ) : cut 0 q = whole q := by
  simp [cut]

/-- A quotient of whole numbers is at least one unit of its denominator away from every
whole number that it is not, so a smaller change keeps its whole part. -/
theorem floor_eq_of_near {a b : ℕ} {z : ℚ} (hb : 0 < b) (ha : ¬ b ∣ a)
    (h : |z - a / b| * b < 1) : ⌊z⌋ = (a / b : ℕ) := by
  have hb' : (0 : ℚ) < b := by exact_mod_cast hb
  have hr : 0 < a % b := Nat.pos_of_ne_zero (mt Nat.dvd_of_mod_eq_zero ha)
  have hlt : a % b < b := Nat.mod_lt a hb
  have hd : (b : ℚ) * (a / b : ℕ) + (a % b : ℕ) = a := by exact_mod_cast Nat.div_add_mod a b
  have hz : |z * b - a| < 1 := by
    calc |z * b - a| = |(z - a / b) * b| := by congr 1; field_simp
      _ = |z - a / b| * b := by rw [abs_mul, abs_of_pos hb']
      _ < 1 := h
  obtain ⟨hlow, hhigh⟩ := abs_lt.mp hz
  have hr' : (1 : ℚ) ≤ (a % b : ℕ) := by exact_mod_cast hr
  have hlt' : ((a % b : ℕ) : ℚ) + 1 ≤ b := by exact_mod_cast hlt
  rw [Int.floor_eq_iff, Int.cast_natCast]
  constructor
  · by_contra hlt
    nlinarith
  · by_contra hge
    nlinarith

namespace Rounding

variable {mode : Rounding} {n count : ℕ}

theorem drop_exact (h : tenPow count ∣ n) : mode.drop n count = n / tenPow count := by
  have hz : n % tenPow count = 0 := Nat.mod_eq_zero_of_dvd h
  have hpos := tenPow_pos count
  cases mode with
  | towardZero => rfl
  | halfEven =>
    simp only [drop, hz]
    rw [if_neg (by omega)]

theorem drop_mul_of_dvd (h : tenPow count ∣ n) :
    ((mode.drop n count : ℕ) : ℚ) * 10 ^ count = n := by
  rw [drop_exact h, ← tenPow_cast]
  exact_mod_cast Nat.div_mul_cancel h

theorem div_le_drop (mode : Rounding) (n count : ℕ) : n / tenPow count ≤ mode.drop n count := by
  cases mode with
  | towardZero => exact Nat.le_refl _
  | halfEven =>
    simp only [drop]
    split_ifs <;> omega

theorem drop_le (mode : Rounding) (n count : ℕ) : mode.drop n count ≤ n / tenPow count + 1 := by
  cases mode with
  | towardZero => exact Nat.le_succ _
  | halfEven =>
    simp only [drop]
    split_ifs <;> omega

theorem drop_near (mode : Rounding) (n count : ℕ) :
    |((mode.drop n count : ℕ) : ℚ) * 10 ^ count - n| ≤ 10 ^ count := by
  have hpos := tenPow_pos count
  have hlow := div_le_drop mode n count
  have hhigh := drop_le mode n count
  have hmod := Nat.mod_lt n hpos
  have hdiv := Nat.div_add_mod n (tenPow count)
  have h₁ : mode.drop n count * tenPow count ≤ n + tenPow count := by
    calc mode.drop n count * tenPow count ≤ (n / tenPow count + 1) * tenPow count :=
          Nat.mul_le_mul_right _ hhigh
      _ = tenPow count * (n / tenPow count) + tenPow count := by ring
      _ ≤ n + tenPow count := by omega
  have h₂ : n ≤ mode.drop n count * tenPow count + tenPow count := by
    calc n ≤ tenPow count * (n / tenPow count) + tenPow count := by omega
      _ = n / tenPow count * tenPow count + tenPow count := by ring
      _ ≤ mode.drop n count * tenPow count + tenPow count :=
          Nat.add_le_add_right (Nat.mul_le_mul_right _ hlow) _
  rw [← tenPow_cast, abs_le]
  have h₁' : ((mode.drop n count * tenPow count : ℕ) : ℚ) ≤ ((n + tenPow count : ℕ) : ℚ) :=
    Nat.cast_le.mpr h₁
  have h₂' : (n : ℚ) ≤ ((mode.drop n count * tenPow count + tenPow count : ℕ) : ℚ) :=
    Nat.cast_le.mpr h₂
  push_cast at h₁' h₂'
  constructor <;> linarith

end Rounding

namespace Scaled

theorem floor_magnitude (x : Scaled) :
    ⌊x.magnitude⌋ = (if 0 ≤ x.exponent then x.coefficient * tenPow x.exponent.toNat
      else x.coefficient / tenPow (-x.exponent).toNat : ℕ) := by
  simp only [magnitude]
  split_ifs with h
  · have he : x.exponent = (x.exponent.toNat : ℤ) := by omega
    rw [he, zpow_natCast, ← tenPow_cast, ← Nat.cast_mul, Int.floor_natCast, ← he]
  · have he : x.exponent = -((-x.exponent).toNat : ℤ) := by omega
    rw [he, zpow_neg, zpow_natCast, ← tenPow_cast, ← div_eq_mul_inv,
      Rat.floor_natCast_div_natCast, ← he]
    rfl

theorem truncate_eq_whole (x : Scaled) : x.truncate = whole x.val := by
  have h := (whole_of_nonneg x.magnitude_nonneg).trans x.floor_magnitude
  simp only [truncate]
  rw [val_eq_magnitude]
  cases x.negative with
  | false => exact h.symm
  | true => simpa only [if_true, whole_neg, neg_inj] using h.symm

theorem natAbs_signed (x : Scaled) : x.signed.natAbs = x.coefficient := by
  simp only [signed]
  cases x.negative <;> simp

theorem hasFraction_eq_false (x : Scaled) : x.hasFraction = false ↔ ∃ n : ℤ, x.val = n := by
  simp only [val]
  by_cases h : 0 ≤ x.exponent
  · have he : x.exponent = (x.exponent.toNat : ℤ) := by omega
    refine iff_of_true (by simp [hasFraction, not_lt.mpr h])
      ⟨x.signed * 10 ^ x.exponent.toNat, ?_⟩
    rw [he, zpow_natCast, ← he]
    push_cast
    rfl
  · have he : x.exponent = -((-x.exponent).toNat : ℤ) := by omega
    have hdvd : x.hasFraction = false ↔ (tenPow (-x.exponent).toNat : ℤ) ∣ x.signed := by
      rw [Int.natCast_dvd, natAbs_signed]
      simp [hasFraction, not_le.mp h, Nat.dvd_iff_mod_eq_zero]
    rw [hdvd]
    refine exists_congr fun n => ?_
    rw [he, zpow_neg, zpow_natCast, ← he, ← tenPow_cast, ← div_eq_mul_inv,
      div_eq_iff (Nat.cast_ne_zero.mpr (tenPow_pos _).ne'), mul_comm]
    norm_cast

end Scaled

namespace Context

variable {ctx : Context} {mode : Rounding} {x y : Scaled} {place : ℤ}

theorem rescale_negative (mode : Rounding) (x : Scaled) (place : ℤ) :
    (rescale mode x place).negative = x.negative := by
  simp only [rescale]
  split_ifs <;> rfl

theorem rescale_exponent (mode : Rounding) (x : Scaled) (place : ℤ) :
    (rescale mode x place).exponent = place := by
  simp only [rescale]
  split_ifs <;> rfl

theorem rescale_coefficient (x : Scaled) (place : ℤ) :
    ((rescale .towardZero x place).coefficient : ℤ) = ⌊x.magnitude * 10 ^ (-place)⌋ := by
  simp only [rescale, Scaled.magnitude]
  rw [mul_assoc, ← zpow_ten_add]
  split_ifs with h
  · have he : x.exponent + -place = ((x.exponent - place).toNat : ℤ) := by omega
    rw [he, zpow_natCast, ← tenPow_cast, ← Nat.cast_mul, Int.floor_natCast]
  · have he : x.exponent + -place = -((place - x.exponent).toNat : ℤ) := by omega
    rw [he, zpow_neg, zpow_natCast, ← tenPow_cast, ← div_eq_mul_inv,
      Rat.floor_natCast_div_natCast]
    rfl

/-- A quantized number has the sign of the number, the place asked for, and toward
zero the digits of the number down to that place. -/
structure Quantized (mode : Rounding) (x : Scaled) (place : ℤ) (y : Scaled) : Prop where
  negative : y.negative = x.negative
  exponent : y.exponent = place
  coefficient : mode = .towardZero → (y.coefficient : ℤ) = ⌊x.magnitude * 10 ^ (-place)⌋

theorem quantized_of_eq_ok (h : ctx.quantizeFinite mode x place = .ok y) :
    Quantized mode x place y := by
  simp only [quantizeFinite] at h
  split_ifs at h with _ hz _ _
  · cases h
    refine ⟨rfl, rfl, ?_⟩
    intro _
    simp [Scaled.magnitude_eq_zero.mpr hz]
  · cases h
    refine ⟨rescale_negative _ _ _, rescale_exponent _ _ _, ?_⟩
    intro hm
    rw [hm]
    exact rescale_coefficient x place

theorem Quantized.val_eq_cut (h : Quantized .towardZero x place y) :
    y.val = cut (-place) x.val := by
  have hm : y.magnitude = cut (-place) x.magnitude := by
    have hnonneg : 0 ≤ x.magnitude * 10 ^ (-place) :=
      mul_nonneg x.magnitude_nonneg (zpow_ten_pos _).le
    have hc : (y.coefficient : ℚ) = (⌊x.magnitude * 10 ^ (-place)⌋ : ℤ) := by
      exact_mod_cast h.coefficient rfl
    simp only [cut, Scaled.magnitude]
    rw [neg_neg, h.exponent, hc]
    exact congrArg (fun n : ℤ => (n : ℚ) * 10 ^ place) (whole_of_nonneg hnonneg).symm
  rw [Scaled.val_eq_magnitude, Scaled.val_eq_magnitude, h.negative, hm]
  split_ifs
  · exact (cut_neg _ _).symm
  · rfl

def keptPlace (ctx : Context) (x : Scaled) : ℤ :=
  max (digitCount x.coefficient + x.exponent - ctx.precision) ctx.tiny

def keptDigits (ctx : Context) (x : Scaled) : ℕ :=
  Rounding.halfEven.drop x.coefficient (ctx.keptPlace x - x.exponent).toNat

theorem fit_eq (hz : x.coefficient ≠ 0) :
    ctx.fit x =
      if ctx.top < digitCount x.coefficient + x.exponent - ctx.precision then .error .overflow
      else if ctx.keptPlace x ≤ x.exponent then .ok x
      else if digitCount (ctx.keptDigits x) ≤ ctx.precision then
        .ok ⟨x.negative, ctx.keptDigits x, ctx.keptPlace x⟩
      else if ctx.top < ctx.keptPlace x + 1 then .error .overflow
      else .ok ⟨x.negative, ctx.keptDigits x / 10, ctx.keptPlace x + 1⟩ := by
  simp only [fit]
  rw [if_neg hz]
  rfl

theorem fit_negative (h : ctx.fit x = .ok y) : y.negative = x.negative := by
  by_cases hz : x.coefficient = 0
  · simp only [fit] at h
    rw [if_pos hz] at h
    cases h
    rfl
  · rw [fit_eq hz] at h
    split_ifs at h <;> cases h <;> rfl

theorem drop_mul_zpow (mode : Rounding) (n : ℕ) {i : ℤ} (h : i ≤ place) :
    (mode.drop n (place - i).toNat : ℚ) * 10 ^ place =
      mode.drop n (place - i).toNat * 10 ^ (place - i).toNat * 10 ^ i := by
  rw [mul_assoc, ← tenPow_cast, tenPow_toNat_mul h]

theorem drop_mul_of_multiple (mode : Rounding) {n c : ℕ} {i e : ℤ}
    (h : (n : ℚ) * 10 ^ i = c * 10 ^ e) (hi : i ≤ place) (he : place ≤ e) :
    (mode.drop n (place - i).toNat : ℚ) * 10 ^ place = n * 10 ^ i := by
  have hn : n = c * tenPow (e - place).toNat * tenPow (place - i).toNat := by
    have hq : (n : ℚ) * 10 ^ i =
        (c * tenPow (e - place).toNat * tenPow (place - i).toNat : ℕ) * 10 ^ i := by
      push_cast
      rw [mul_assoc, tenPow_toNat_mul hi, mul_assoc, tenPow_toNat_mul he, h]
    exact_mod_cast mul_right_cancel₀ (zpow_ten_ne_zero i) hq
  rw [drop_mul_zpow mode n hi, Rounding.drop_mul_of_dvd (Dvd.intro_left _ hn.symm)]

theorem fit_exact {c : ℕ} {e : ℤ} (hm : x.magnitude = c * 10 ^ e)
    (hc : c < 10 ^ ctx.precision) (he : ctx.tiny ≤ e)
    (htop : x.magnitude < 10 ^ (ctx.maxExponent + 1)) :
    ∃ y, ctx.fit x = .ok y ∧ y.negative = x.negative ∧ y.magnitude = x.magnitude := by
  by_cases hz : x.coefficient = 0
  · refine ⟨_, if_pos hz, rfl, ?_⟩
    simp [Scaled.magnitude, hz]
  have hdigits : digitCount x.coefficient + x.exponent ≤ ctx.precision + e := by
    refine digitCount_add_le hz ?_
    have hc' : (c : ℚ) < 10 ^ ctx.precision := by exact_mod_cast hc
    calc (x.coefficient : ℚ) * 10 ^ x.exponent = c * 10 ^ e := hm
      _ < 10 ^ ctx.precision * 10 ^ e := mul_lt_mul_of_pos_right hc' (zpow_ten_pos e)
      _ = 10 ^ ((ctx.precision : ℤ) + e) := by rw [zpow_ten_add, zpow_natCast]
  have hfits : digitCount x.coefficient + x.exponent ≤ ctx.maxExponent + 1 :=
    digitCount_add_le hz htop
  rw [fit_eq hz, if_neg (by unfold top; omega)]
  by_cases hp : ctx.keptPlace x ≤ x.exponent
  · exact ⟨x, if_pos hp, rfl, rfl⟩
  have hplace : ctx.keptPlace x ≤ e := by
    simp only [keptPlace]
    omega
  have hkept : (ctx.keptDigits x : ℚ) * 10 ^ ctx.keptPlace x = x.magnitude :=
    drop_mul_of_multiple .halfEven hm (Int.le_of_not_le hp) hplace
  have hcount : digitCount (ctx.keptDigits x) ≤ ctx.precision := by
    have hne : ctx.keptDigits x ≠ 0 := by
      intro h0
      rw [h0, Nat.cast_zero, zero_mul] at hkept
      exact (Scaled.magnitude_pos hz).ne hkept
    have hlt := digitCount_add_le (j := ctx.precision + ctx.keptPlace x) hne (by
      rw [hkept]
      refine (lt_zpow_digitCount _ _).trans_le (zpow_ten_le ?_)
      simp only [keptPlace]
      omega)
    omega
  exact ⟨_, (if_neg hp).trans (if_pos hcount), rfl, hkept⟩

theorem drop_near_zpow (mode : Rounding) (n : ℕ) {i : ℤ} (h : i ≤ place) :
    |(mode.drop n (place - i).toNat : ℚ) * 10 ^ place - n * 10 ^ i| ≤ 10 ^ place := by
  rw [drop_mul_zpow mode n h, ← sub_mul, abs_mul, abs_of_pos (zpow_ten_pos i)]
  calc |(mode.drop n (place - i).toNat : ℚ) * 10 ^ (place - i).toNat - n| * 10 ^ i
      ≤ 10 ^ (place - i).toNat * 10 ^ i :=
        mul_le_mul_of_nonneg_right (Rounding.drop_near _ _ _) (zpow_ten_pos i).le
    _ = 10 ^ place := by rw [← tenPow_cast, tenPow_toNat_mul h]

theorem drop_eq_of_carry {n precision count : ℕ} (hn : n < 10 ^ (precision + count))
    (h : 10 ^ precision ≤ mode.drop n count) : mode.drop n count = 10 ^ precision := by
  have hle := Rounding.drop_le mode n count
  have hlt : n / tenPow count < 10 ^ precision := by
    rw [Nat.div_lt_iff_lt_mul (tenPow_pos count)]
    calc n < 10 ^ (precision + count) := hn
      _ = 10 ^ precision * tenPow count := Nat.pow_add 10 precision count
  omega

theorem keptDigits_eq_of_carry (hprec : 0 < ctx.precision)
    (hplace : x.exponent ≤ ctx.keptPlace x) (h : ¬ digitCount (ctx.keptDigits x) ≤ ctx.precision) :
    ctx.keptDigits x = 10 ^ ctx.precision := by
  have hcarry : 10 ^ ctx.precision ≤ ctx.keptDigits x := by
    rwa [digitCount_le_iff hprec, Nat.not_lt] at h
  have hdigits : digitCount x.coefficient ≤
      ctx.precision + (ctx.keptPlace x - x.exponent).toNat := by
    simp only [keptPlace] at hplace ⊢
    omega
  have hlt : x.coefficient < 10 ^ (ctx.precision + (ctx.keptPlace x - x.exponent).toNat) :=
    (lt_pow_digitCount _).trans_le (Nat.pow_le_pow_right (by decide) hdigits)
  exact drop_eq_of_carry hlt hcarry

theorem keptPlace_eq (hlow : (10 : ℚ) ^ (ctx.tiny + ctx.precision - 1) ≤ x.magnitude) :
    ctx.keptPlace x = digitCount x.coefficient + x.exponent - ctx.precision := by
  have hdigits := lt_digitCount_add hlow
  simp only [keptPlace]
  omega

theorem zpow_keptPlace_le (hz : x.coefficient ≠ 0)
    (hlow : (10 : ℚ) ^ (ctx.tiny + ctx.precision - 1) ≤ x.magnitude) :
    (10 : ℚ) ^ ctx.keptPlace x ≤ 10 ^ (1 - ctx.precision : ℤ) * x.magnitude := by
  rw [keptPlace_eq hlow]
  calc (10 : ℚ) ^ (digitCount x.coefficient + x.exponent - ctx.precision : ℤ)
      = 10 ^ (1 - ctx.precision : ℤ) * 10 ^ (digitCount x.coefficient + x.exponent - 1) := by
        rw [← zpow_ten_add]
        congr 1
        ring
    _ ≤ 10 ^ (1 - ctx.precision : ℤ) * x.magnitude :=
        mul_le_mul_of_nonneg_left (zpow_digitCount_le hz _) (zpow_ten_pos _).le

theorem carried_mul_zpow {d precision : ℕ} (hd : d = 10 ^ precision) (hprec : 0 < precision)
    (place : ℤ) : ((d / 10 : ℕ) : ℚ) * 10 ^ (place + 1) = d * 10 ^ place := by
  have hmul : d / 10 * 10 = d := Nat.div_mul_cancel (hd ▸ dvd_pow_self 10 hprec.ne')
  rw [add_comm, zpow_ten_add, zpow_one, ← mul_assoc]
  exact congrArg (fun q : ℚ => q * 10 ^ place) (by exact_mod_cast hmul)

/-- A number not too close to zero is off by less than one unit of the last digit that
the context keeps of it. -/
theorem fit_near (hprec : 0 < ctx.precision) (h : ctx.fit x = .ok y) (hz : x.coefficient ≠ 0)
    (hlow : (10 : ℚ) ^ (ctx.tiny + ctx.precision - 1) ≤ x.magnitude) :
    |y.magnitude - x.magnitude| ≤ 10 ^ (1 - ctx.precision : ℤ) * x.magnitude := by
  have hplace := keptPlace_eq hlow
  have hunit := zpow_keptPlace_le hz hlow
  rw [fit_eq hz] at h
  split_ifs at h with htop hp hcount hcarry
  · cases h
    rw [sub_self, abs_zero]
    exact mul_nonneg (zpow_ten_pos _).le x.magnitude_nonneg
  · cases h
    exact (drop_near_zpow .halfEven x.coefficient (Int.le_of_not_le hp)).trans hunit
  · -- one digit too many: rounding went up to a power of ten
    cases h
    have hten := keptDigits_eq_of_carry hprec (Int.le_of_not_le hp) hcount
    change |((ctx.keptDigits x / 10 : ℕ) : ℚ) * 10 ^ (ctx.keptPlace x + 1) - _| ≤ _
    rw [carried_mul_zpow hten hprec]
    exact (drop_near_zpow .halfEven x.coefficient (Int.le_of_not_le hp)).trans hunit

end Context

end ContractGuard
