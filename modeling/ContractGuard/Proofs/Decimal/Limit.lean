import ContractGuard.Proofs.Decimal.Defined

/-!
# The limit of a context

Fitting fails exactly on the numbers that would round to more digits than the context has
at its coarsest place. Half of the last place decides: from there on a number is rounded
up to the next power of ten, since the digits below it are odd.
-/

namespace ContractGuard

theorem Rounding.pow_le_drop_halfEven {n count precision : ℕ} (hprec : 0 < precision) :
    10 ^ precision ≤ halfEven.drop n count ↔
      2 * 10 ^ precision * tenPow count ≤ 2 * n + tenPow count := by
  have hpos := tenPow_pos count
  have hsplit := Nat.div_add_mod n (tenPow count)
  have hlost := Nat.mod_lt n hpos
  have heven : 10 ^ precision % 2 = 0 := by
    rw [Nat.pow_mod, Nat.zero_pow hprec]
  simp only [drop]
  generalize tenPow count = unit at *
  generalize n / unit = kept at *
  generalize n % unit = lost at *
  generalize 10 ^ precision = ten at *
  rcases lt_trichotomy (kept + 1) ten with hlt | heq | hgt
  · -- too far below to be rounded up
    have hle : unit * (kept + 2) ≤ unit * ten := Nat.mul_le_mul_left unit hlt
    rw [Nat.mul_add] at hle
    have hright : ¬ 2 * ten * unit ≤ 2 * n + unit := by
      rw [Nat.mul_assoc, Nat.mul_comm ten]
      omega
    refine iff_of_false ?_ hright
    split_ifs <;> omega
  · have hunit : unit * ten = unit * kept + unit := by rw [← heq, Nat.mul_add, Nat.mul_one]
    rw [Nat.mul_assoc, Nat.mul_comm ten, hunit]
    split_ifs <;> omega
  · have hle : unit * ten ≤ unit * kept := Nat.mul_le_mul_left unit (Nat.lt_succ_iff.mp hgt)
    have hright : 2 * ten * unit ≤ 2 * n + unit := by
      rw [Nat.mul_assoc, Nat.mul_comm ten]
      omega
    refine iff_of_true ?_ hright
    split_ifs <;> omega

namespace Context

variable {ctx : Context} {x : Scaled} {s : Signal}

/-- Half of the last place above the greatest number of the context. -/
def limit (ctx : Context) : ℚ := (10 ^ ctx.precision - 1 / 2) * 10 ^ ctx.top

theorem one_le_pow (precision : ℕ) : (1 : ℚ) ≤ 10 ^ precision := one_le_pow₀ (by norm_num)

theorem limit_lt (ctx : Context) : ctx.limit < 10 ^ (ctx.precision + ctx.top : ℤ) := by
  have htop := zpow_ten_pos ctx.top
  rw [zpow_ten_add, zpow_natCast, limit]
  exact mul_lt_mul_of_pos_right (by linarith) htop

theorem lt_limit (h : x.magnitude < 10 ^ (ctx.precision + ctx.top - 1 : ℤ)) :
    x.magnitude < ctx.limit := by
  have htop := zpow_ten_pos ctx.top
  have hpow := one_le_pow ctx.precision
  have hsplit : (10 : ℚ) ^ (ctx.precision + ctx.top - 1 : ℤ) * 10 =
      10 ^ ctx.precision * 10 ^ ctx.top := by
    rw [← zpow_natCast, ← zpow_ten_add, ← zpow_add_one₀ (by norm_num), sub_add_cancel]
  have hhalf : (10 : ℚ) ^ ctx.precision / 2 * 10 ^ ctx.top ≤ ctx.limit :=
    mul_le_mul_of_nonneg_right (by linarith) htop.le
  nlinarith

theorem lt_limit_of_digits {place : ℤ} (h : x.magnitude < (10 ^ ctx.precision - 1 / 2) * 10 ^ place)
    (hplace : place ≤ ctx.top) : x.magnitude < ctx.limit := by
  have hpow := one_le_pow ctx.precision
  exact h.trans_le (mul_le_mul_of_nonneg_left (zpow_ten_le hplace) (by linarith))

theorem lt_limit_of_exact (hdigits : digitCount x.coefficient ≤ ctx.precision)
    (htop : digitCount x.coefficient + x.exponent ≤ ctx.precision + ctx.top) :
    x.magnitude < ctx.limit := by
  have hlt : (x.coefficient : ℚ) + 1 ≤ 10 ^ digitCount x.coefficient := by
    exact_mod_cast lt_pow_digitCount x.coefficient
  have hexp := zpow_ten_pos x.exponent
  rcases le_total x.exponent ctx.top with hle | hle
  · refine lt_limit_of_digits (mul_lt_mul_of_pos_right ?_ hexp) hle
    have hpow : (10 : ℚ) ^ digitCount x.coefficient ≤ 10 ^ ctx.precision :=
      pow_le_pow_right₀ (by norm_num) hdigits
    linarith
  · have hunit : (10 : ℚ) ^ ctx.top ≤ 10 ^ x.exponent := zpow_ten_le hle
    have htop' := zpow_ten_pos ctx.top
    calc x.magnitude ≤ (10 ^ digitCount x.coefficient - 1) * 10 ^ x.exponent :=
          mul_le_mul_of_nonneg_right (by linarith) hexp.le
      _ = 10 ^ (digitCount x.coefficient + x.exponent : ℤ) - 10 ^ x.exponent := by
          rw [sub_mul, one_mul, zpow_ten_add, zpow_natCast]
      _ ≤ 10 ^ (ctx.precision + ctx.top : ℤ) - 10 ^ ctx.top :=
          sub_le_sub (zpow_ten_le htop) hunit
      _ = (10 ^ ctx.precision - 1) * 10 ^ ctx.top := by
          rw [zpow_ten_add, zpow_natCast, sub_mul, one_mul]
      _ < ctx.limit := mul_lt_mul_of_pos_right (by linarith) htop'

/-- Rounding carries into one more digit from half of the last place on. -/
theorem pow_le_keptDigits (hprec : 0 < ctx.precision) (hplace : x.exponent ≤ ctx.keptPlace x) :
    10 ^ ctx.precision ≤ ctx.keptDigits x ↔
      (10 ^ ctx.precision - 1 / 2) * 10 ^ ctx.keptPlace x ≤ x.magnitude := by
  have hexp := zpow_ten_pos x.exponent
  have hsplit := tenPow_toNat_mul hplace
  rw [keptDigits, Rounding.pow_le_drop_halfEven hprec]
  generalize (ctx.keptPlace x - x.exponent).toNat = count at hsplit ⊢
  rw [← hsplit, ← mul_assoc, Scaled.magnitude, mul_le_mul_iff_of_pos_right hexp,
    ← Nat.cast_le (α := ℚ)]
  push_cast
  constructor <;> intro h <;> linarith

theorem limit_le_of_top_lt (hz : x.coefficient ≠ 0)
    (h : ctx.top < digitCount x.coefficient + x.exponent - ctx.precision) :
    ctx.limit ≤ x.magnitude := by
  refine (ctx.limit_lt.le.trans (zpow_ten_le ?_)).trans (zpow_digitCount_le hz x.exponent)
  omega

theorem limit_le_iff_of_rounded (hprec : 0 < ctx.precision) (hplace : ctx.keptPlace x ≤ ctx.top)
    (hrounded : x.exponent < ctx.keptPlace x) :
    ctx.limit ≤ x.magnitude ↔
      ¬ digitCount (ctx.keptDigits x) ≤ ctx.precision ∧ ctx.top < ctx.keptPlace x + 1 := by
  have hcarry := pow_le_keptDigits hprec hrounded.le
  have hcount : digitCount (ctx.keptDigits x) ≤ ctx.precision ↔
      ¬ 10 ^ ctx.precision ≤ ctx.keptDigits x := by
    rw [digitCount_le_iff hprec, Nat.not_le]
  rw [hcount, not_not, hcarry]
  by_cases hlast : ctx.top < ctx.keptPlace x + 1
  · have heq : ctx.keptPlace x = ctx.top := by omega
    rw [limit, ← heq, and_iff_left (by omega)]
  · have hunder : x.magnitude < ctx.limit := by
      refine lt_limit ((lt_zpow_digitCount _ _).trans_le (zpow_ten_le ?_))
      simp only [keptPlace] at hlast
      omega
    exact iff_of_false (not_le_of_gt hunder) fun h => hlast h.2

theorem fit_eq_error (hprec : 0 < ctx.precision) (hroomy : ctx.Roomy) :
    ctx.fit x = .error s ↔ s = .overflow ∧ ctx.limit ≤ x.magnitude := by
  by_cases hz : x.coefficient = 0
  · have hunder : x.magnitude < ctx.limit := by
      rw [Scaled.magnitude_eq_zero.mpr hz]
      have hpow := one_le_pow ctx.precision
      exact mul_pos (by linarith) (zpow_ten_pos _)
    simp [fit, hz, hunder]
  rw [fit_eq hz]
  by_cases htop : ctx.top < digitCount x.coefficient + x.exponent - ctx.precision
  · simp [htop, limit_le_of_top_lt hz htop, eq_comm]
  rw [if_neg htop]
  by_cases hexact : ctx.keptPlace x ≤ x.exponent
  · have hunder : x.magnitude < ctx.limit := by
      apply lt_limit_of_exact
      · simp only [keptPlace] at hexact
        omega
      · omega
    simp [hexact, hunder]
  have hplace : ctx.keptPlace x ≤ ctx.top := by
    simp only [Roomy, keptPlace] at hroomy ⊢
    omega
  rw [if_neg hexact, limit_le_iff_of_rounded hprec hplace (Int.lt_of_not_ge hexact)]
  by_cases hcount : digitCount (ctx.keptDigits x) ≤ ctx.precision
  · simp [hcount]
  · by_cases hlast : ctx.top < ctx.keptPlace x + 1 <;> simp [hcount, hlast, eq_comm]

end Context

end ContractGuard
