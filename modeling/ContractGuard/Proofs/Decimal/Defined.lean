import ContractGuard.Proofs.Decimal.Quotient

/-!
# Results that exist

A context refuses only what is too large for it. A number below the greatest power of ten
is fitted, and one with few enough digits before a place is quantized to it, so a product
or a quotient of numbers of moderate size always has a result.
-/

namespace ContractGuard.Context

variable {ctx : Context} {mode : Rounding} {x y z : Scaled} {place : ℤ}

def Roomy (ctx : Context) : Prop := ctx.tiny < ctx.top

theorem fit_defined (hctx : ctx.Roomy) (h : x.magnitude < 10 ^ ctx.maxExponent) :
    ∃ y, ctx.fit x = .ok y := by
  by_cases hz : x.coefficient = 0
  · exact ⟨_, if_pos hz⟩
  have hdigits : digitCount x.coefficient + x.exponent ≤ ctx.maxExponent :=
    digitCount_add_le hz h
  have htop : ctx.keptPlace x + 1 ≤ ctx.top := by
    simp only [Roomy, keptPlace, top] at hctx ⊢
    omega
  rw [fit_eq hz, if_neg (by unfold top; omega)]
  by_cases hp : ctx.keptPlace x ≤ x.exponent
  · exact ⟨_, if_pos hp⟩
  rw [if_neg hp]
  by_cases hcount : digitCount (ctx.keptDigits x) ≤ ctx.precision
  · exact ⟨_, if_pos hcount⟩
  · rw [if_neg hcount, if_neg (by omega)]
    exact ⟨_, rfl⟩

theorem rescale_coefficient_le (mode : Rounding) (x : Scaled) (place : ℤ) :
    ((rescale mode x place).coefficient : ℚ) ≤ x.magnitude * 10 ^ (-place) + 1 := by
  have hplace := zpow_ten_pos place
  have hcancel : (10 : ℚ) ^ place * 10 ^ (-place) = 1 := by
    rw [← zpow_ten_add, add_neg_cancel, zpow_zero]
  simp only [rescale]
  split_ifs with h
  · have hexact : ((x.coefficient * tenPow (x.exponent - place).toNat : ℕ) : ℚ) =
        x.magnitude * 10 ^ (-place) := by
      push_cast
      rw [Scaled.magnitude, ← tenPow_toNat_mul h, mul_assoc, mul_assoc, hcancel, mul_one]
    linarith
  · have hnear := drop_near_zpow mode x.coefficient (Int.le_of_not_le h)
    obtain ⟨_, hhigh⟩ := abs_le.mp hnear
    have hdrop : (mode.drop x.coefficient (place - x.exponent).toNat : ℚ) * 10 ^ place ≤
        x.magnitude + 10 ^ place := by
      simp only [Scaled.magnitude]
      linarith
    calc (mode.drop x.coefficient (place - x.exponent).toNat : ℚ)
        = mode.drop x.coefficient (place - x.exponent).toNat * 10 ^ place * 10 ^ (-place) := by
          rw [mul_assoc, hcancel, mul_one]
      _ ≤ (x.magnitude + 10 ^ place) * 10 ^ (-place) :=
          mul_le_mul_of_nonneg_right hdrop (zpow_ten_pos _).le
      _ = x.magnitude * 10 ^ (-place) + 1 := by rw [add_mul, hcancel]

theorem quantizeFinite_defined (hprec : 1 < ctx.precision) (hlow : ctx.tiny ≤ place)
    (hhigh : place + ctx.precision ≤ ctx.maxExponent + 1)
    (h : x.magnitude < 10 ^ (place + ctx.precision - 1)) :
    ∃ y, ctx.quantizeFinite mode x place = .ok y := by
  simp only [quantizeFinite]
  rw [if_neg (by omega)]
  by_cases hz : x.coefficient = 0
  · exact ⟨_, if_pos hz⟩
  have hdigits : digitCount x.coefficient + x.exponent ≤ place + ctx.precision - 1 :=
    digitCount_add_le hz h
  have hcount : digitCount (rescale mode x place).coefficient ≤ ctx.precision := by
    -- one digit to spare takes up what rounding adds
    have hmoved : ((rescale mode x place).coefficient : ℚ) < 10 ^ (ctx.precision : ℤ) := by
      have hscaled : x.magnitude * 10 ^ (-place) < 10 ^ (ctx.precision - 1 : ℤ) := by
        calc x.magnitude * 10 ^ (-place)
            < 10 ^ (place + ctx.precision - 1) * 10 ^ (-place) :=
              mul_lt_mul_of_pos_right h (zpow_ten_pos _)
          _ = 10 ^ (ctx.precision - 1 : ℤ) := by
              rw [← zpow_ten_add]
              congr 1
              ring
      have hone : (1 : ℚ) ≤ 10 ^ (ctx.precision - 1 : ℤ) := by
        simpa using zpow_ten_le (i := 0) (j := ctx.precision - 1) (by omega)
      have hten : (10 : ℚ) ^ (ctx.precision : ℤ) = 10 * 10 ^ (ctx.precision - 1 : ℤ) := by
        rw [mul_comm, ← zpow_add_one₀ (by norm_num), sub_add_cancel]
      have := rescale_coefficient_le mode x place
      linarith
    rw [digitCount_le_iff (by omega)]
    exact_mod_cast hmoved
  rw [if_neg hz, if_neg (by omega), if_neg (by omega)]
  exact ⟨_, rfl⟩

theorem wide_roomy : wide.Roomy := by
  simp only [Roomy]
  decide

/-- Numbers with at most seventy-six digits before the point can be moved to the last
place of the fixed-point type. -/
theorem quantizeFinite_wide (mode : Rounding) (h : x.magnitude < 10 ^ (77 : ℤ)) :
    ∃ y, wide.quantizeFinite mode x (-18) = .ok y :=
  quantizeFinite_defined (by decide) (by decide) (by decide) h

section

variable {a b n s : ℕ} (hctx : ctx.Divides n s) (hx : x.magnitude = a * 10 ^ (-s : ℤ))
  (hy : y.magnitude = b * 10 ^ (-s : ℤ)) (ha : a < 10 ^ n) (hb : 0 < b)

include hctx hx hy ha hb

omit hctx in
theorem fit_div_defined (hroomy : ctx.Roomy) (htop : n < ctx.maxExponent) :
    ∃ z, ctx.fit (x.div ctx.precision y) = .ok z := by
  refine fit_defined hroomy ?_
  by_cases hxc : x.coefficient = 0
  · have hzero : (x.div ctx.precision y).magnitude = 0 := by
      rw [Scaled.magnitude_eq_zero]
      simp [Scaled.div, hxc]
    exact hzero ▸ zpow_ten_pos _
  have hmag := magnitude_div hx hy
  have hb' : (1 : ℚ) ≤ b := by exact_mod_cast hb
  have ha' : (a : ℚ) < 10 ^ (n : ℤ) := by exact_mod_cast ha
  have hq : x.magnitude / y.magnitude < 10 ^ (n : ℤ) := by
    rw [hmag]
    exact (div_le_self (Nat.cast_nonneg a) hb').trans_lt ha'
  have hqpos : 0 ≤ x.magnitude / y.magnitude := div_nonneg x.magnitude_nonneg y.magnitude_nonneg
  have hsmall : (10 : ℚ) ^ (-ctx.precision : ℤ) ≤ 1 := by
    simpa using zpow_ten_le (i := -ctx.precision) (j := 0) (by omega)
  have hnear : |(x.div ctx.precision y).magnitude - x.magnitude / y.magnitude| ≤
      10 ^ (-ctx.precision : ℤ) * (x.magnitude / y.magnitude) :=
    Scaled.div_near hxc (coefficient_ne_zero hy hb)
  obtain ⟨_, hhigh⟩ := abs_le.mp hnear
  calc (x.div ctx.precision y).magnitude ≤ 2 * (x.magnitude / y.magnitude) := by nlinarith
    _ ≤ 10 * (x.magnitude / y.magnitude) := by linarith
    _ < 10 * 10 ^ (n : ℤ) := by linarith
    _ = 10 ^ (n + 1 : ℤ) := by rw [zpow_add_one₀ (by norm_num), mul_comm]
    _ ≤ 10 ^ ctx.maxExponent := zpow_ten_le (by omega)

theorem fit_div_lt (hbn : b < 10 ^ n) (hz : ctx.fit (x.div ctx.precision y) = .ok z) :
    z.magnitude < 10 ^ (n + 1 : ℤ) := by
  -- down to the last place the fitted quotient is the quotient
  have hfloor := floor_fit_div hctx hx hy ha hb hbn hz
  have hs := zpow_ten_pos s
  have hb' : (1 : ℚ) ≤ b := by exact_mod_cast hb
  have ha' : (a : ℚ) < 10 ^ (n : ℤ) := by exact_mod_cast ha
  have hone : (1 : ℚ) ≤ 10 ^ (s : ℤ) := by
    simpa using zpow_ten_le (i := 0) (j := s) (by omega)
  have hone' : (1 : ℚ) ≤ 10 ^ (n : ℤ) := by
    simpa using zpow_ten_le (i := 0) (j := n) (by omega)
  have hq : x.magnitude / y.magnitude < 10 ^ (n : ℤ) := by
    rw [magnitude_div hx hy]
    exact (div_le_self (Nat.cast_nonneg a) hb').trans_lt ha'
  have hle : z.magnitude * 10 ^ (s : ℤ) < (x.magnitude / y.magnitude + 1) * 10 ^ (s : ℤ) := by
    calc z.magnitude * 10 ^ (s : ℤ) < ⌊z.magnitude * 10 ^ (s : ℤ)⌋ + 1 := Int.lt_floor_add_one _
      _ = ⌊x.magnitude / y.magnitude * 10 ^ (s : ℤ)⌋ + 1 := by rw [hfloor]
      _ ≤ x.magnitude / y.magnitude * 10 ^ (s : ℤ) + 10 ^ (s : ℤ) :=
          add_le_add (Int.floor_le _) hone
      _ = (x.magnitude / y.magnitude + 1) * 10 ^ (s : ℤ) := by ring
  calc z.magnitude < x.magnitude / y.magnitude + 1 := lt_of_mul_lt_mul_right hle hs.le
    _ ≤ 10 ^ (n : ℤ) + 10 ^ (n : ℤ) := by linarith
    _ ≤ 10 ^ (n : ℤ) * 10 := by linarith
    _ = 10 ^ (n + 1 : ℤ) := by rw [zpow_add_one₀ (by norm_num)]

end

end ContractGuard.Context
