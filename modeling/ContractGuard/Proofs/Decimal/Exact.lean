import ContractGuard.Proofs.Decimal.Limit

/-!
# Numbers that a context holds

Fitting changes a number unless the context has room for all of its digits: few enough of
them, none beyond its finest place, and the number below its limit. Quantizing changes a
number unless it is a multiple of the place.
-/

namespace ContractGuard.Context

variable {ctx : Context} {x y : Scaled} {q : ℚ}

/-- A multiple of a place of the context, with no more digits than the context has. -/
def Representable (ctx : Context) (q : ℚ) : Prop :=
  ∃ (c : ℕ) (e : ℤ), c < 10 ^ ctx.precision ∧ ctx.tiny ≤ e ∧ q = c * 10 ^ e

def Keeps (ctx : Context) (q : ℚ) : Prop := q < ctx.limit ∧ ctx.Representable q

theorem digitCount_le_of_keptPlace_le (h : ctx.keptPlace x ≤ x.exponent) :
    digitCount x.coefficient ≤ ctx.precision := by
  simp only [keptPlace] at h
  omega

theorem tiny_le_keptPlace (ctx : Context) (x : Scaled) : ctx.tiny ≤ ctx.keptPlace x :=
  le_max_right _ _

theorem fit_digits (hprec : 0 < ctx.precision) (hroomy : ctx.Roomy) (h : ctx.fit x = .ok y) :
    y.coefficient < 10 ^ ctx.precision ∧ ctx.tiny ≤ y.exponent := by
  have htiny := tiny_le_keptPlace ctx x
  by_cases hz : x.coefficient = 0
  · obtain rfl := Except.ok.inj ((if_pos hz).symm.trans h)
    refine ⟨hz ▸ Nat.pow_pos (by decide), ?_⟩
    simp only [Roomy, top] at hroomy ⊢
    omega
  rw [fit_eq hz] at h
  split_ifs at h with htop hexact hcount hlast
  · obtain rfl := Except.ok.inj h
    exact ⟨(digitCount_le_iff hprec).mp (digitCount_le_of_keptPlace_le hexact),
      htiny.trans hexact⟩
  · obtain rfl := Except.ok.inj h
    exact ⟨(digitCount_le_iff hprec).mp hcount, htiny⟩
  · obtain rfl := Except.ok.inj h
    have hten := keptDigits_eq_of_carry hprec (Int.le_of_not_le hexact) hcount
    refine ⟨?_, htiny.trans (Int.le_add_one le_rfl)⟩
    rw [hten]
    exact Nat.div_lt_self (Nat.pow_pos (by decide)) (by decide)

theorem fit_representable (hprec : 0 < ctx.precision) (hroomy : ctx.Roomy)
    (h : ctx.fit x = .ok y) : ctx.Representable y.magnitude := by
  obtain ⟨hdigits, htiny⟩ := fit_digits hprec hroomy h
  exact ⟨y.coefficient, y.exponent, hdigits, htiny, rfl⟩

theorem fit_defined_iff (hprec : 0 < ctx.precision) (hroomy : ctx.Roomy) :
    (∃ y, ctx.fit x = .ok y) ↔ x.magnitude < ctx.limit := by
  rw [← not_le]
  cases hfit : ctx.fit x with
  | ok y =>
    refine iff_of_true ⟨y, rfl⟩ fun hlimit => ?_
    have herror := (fit_eq_error hprec hroomy).mpr ⟨rfl, hlimit⟩
    simp [hfit] at herror
  | error s =>
    have hlimit := ((fit_eq_error hprec hroomy).mp hfit).2
    exact iff_of_false (by simp) (not_not.mpr hlimit)

/-- Fitting loses nothing exactly of the numbers that the context holds. -/
theorem fit_keeps_iff (hprec : 0 < ctx.precision) (hroomy : ctx.Roomy) :
    (∃ y, ctx.fit x = .ok y ∧ y.val = x.val) ↔ ctx.Keeps x.magnitude := by
  constructor
  · rintro ⟨y, hfit, hval⟩
    have hmagnitude := (Scaled.val_eq_iff (fit_negative hfit)).mp hval
    exact ⟨(fit_defined_iff hprec hroomy).mp ⟨y, hfit⟩,
      hmagnitude ▸ fit_representable hprec hroomy hfit⟩
  · rintro ⟨hlimit, c, e, hc, he, hm⟩
    have hhigh : x.magnitude < 10 ^ (ctx.maxExponent + 1) := by
      refine hlimit.trans_le (ctx.limit_lt.le.trans (zpow_ten_le ?_))
      simp only [top]
      omega
    obtain ⟨y, hfit, hnegative, hmagnitude⟩ := fit_exact hm hc he hhigh
    exact ⟨y, hfit, (Scaled.val_eq_iff hnegative).mpr hmagnitude⟩

theorem plain_roomy : plain.Roomy := by
  simp only [Roomy]
  decide

variable {mode : Rounding} {place : ℤ} {c : ℕ}

theorem rescale_magnitude (mode : Rounding) (h : x.magnitude = c * 10 ^ place) :
    (rescale mode x place).magnitude = x.magnitude := by
  by_cases hplace : place ≤ x.exponent
  · simp only [rescale, if_pos hplace, Scaled.magnitude, Nat.cast_mul]
    rw [mul_assoc, tenPow_toNat_mul hplace]
  · simp only [rescale, if_neg hplace]
    exact drop_mul_of_multiple mode h (Int.le_of_not_le hplace) le_rfl

theorem quantizeFinite_exact (h : ctx.quantizeFinite mode x place = .ok y)
    (hm : x.magnitude = c * 10 ^ place) : y.val = x.val := by
  rw [Scaled.val_eq_iff (quantized_of_eq_ok h).negative]
  simp only [quantizeFinite] at h
  split_ifs at h with _ hz _ _
  · obtain rfl := Except.ok.inj h
    rw [Scaled.magnitude_eq_zero.mpr rfl, Scaled.magnitude_eq_zero.mpr hz]
  · obtain rfl := Except.ok.inj h
    exact rescale_magnitude mode hm

end ContractGuard.Context
