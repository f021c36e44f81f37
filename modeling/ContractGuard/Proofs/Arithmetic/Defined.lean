import ContractGuard.Proofs.Arithmetic.Folding
import ContractGuard.Proofs.Code.Definition
import ContractGuard.Proofs.Decimal.Defined

/-!
# Folding is total

On legal operands, a divisor of zero aside, folding always has a result. A product of two
fixed-point numbers stays below the context's precision, and a quotient of two is at most
as large as the greatest number over the last place.
-/

namespace ContractGuard

namespace Context

variable {x : Scaled}

theorem fit_wide_defined {s : ℕ} {i : ℤ} (hx : x.val * 10 ^ (s : ℤ) = i)
    (hi : i.natAbs < 10 ^ 96) (hs : s ≤ 36) : ∃ z, wide.fit x = .ok z ∧ z.val = x.val := by
  have hlt : x.magnitude < 10 ^ wide.maxExponent := by
    have hi' : (i.natAbs : ℚ) < 10 ^ (96 : ℤ) := by exact_mod_cast hi
    calc x.magnitude = i.natAbs * 10 ^ (-s : ℤ) := Scaled.magnitude_of_grid hx
      _ ≤ i.natAbs * 10 ^ (0 : ℤ) :=
          mul_le_mul_of_nonneg_left (zpow_ten_le (by omega)) (Nat.cast_nonneg _)
      _ < 10 ^ (96 : ℤ) := by rwa [zpow_zero, mul_one]
      _ ≤ 10 ^ wide.maxExponent := zpow_ten_le (by decide)
  obtain ⟨z, hz⟩ := fit_defined wide_roomy hlt
  exact ⟨z, hz, fit_wide hx hi hs hz⟩

end Context

namespace ArithOp

open ScalarType

variable {op : ArithOp} {a b : Scaled} {i j : ℤ}

theorem quantized_defined {x : Except Signal Decimal} {z : Scaled} (hx : x = .ok (.finite z))
    (h : z.magnitude < 10 ^ (77 : ℤ)) :
    ∃ d, (do
      let place ← Context.wide.placeOf fixed.scale
      Context.wide.quantize .towardZero (← x) place : Except Signal Decimal) = .ok d := by
  obtain ⟨w, hw⟩ := Context.quantizeFinite_wide .towardZero h
  refine ⟨.finite w, ?_⟩
  rw [Context.placeOf_wide, hx]
  exact Context.quantize_eq_ok.mpr ⟨w, hw, rfl⟩

theorem add_defined (hi : a.val * 10 ^ ((18 : ℕ) : ℤ) = i)
    (hj : b.val * 10 ^ ((18 : ℕ) : ℤ) = j) (hib : i.natAbs ≤ 2 ^ 127) (hjb : j.natAbs ≤ 2 ^ 127) :
    ∃ d, (Decimal.finite a).add .wide (.finite b) = .ok d := by
  have hgrid : (a.add b).val * 10 ^ ((18 : ℕ) : ℤ) = (i + j : ℤ) := by
    rw [Scaled.val_add, add_mul, hi, hj, Int.cast_add]
  obtain ⟨z, hz, _⟩ := Context.fit_wide_defined hgrid (by omega) (by decide)
  exact ⟨_, Decimal.add_eq_ok.mpr ⟨z, hz, rfl⟩⟩

theorem mul_defined (hi : a.val * 10 ^ ((18 : ℕ) : ℤ) = i)
    (hj : b.val * 10 ^ ((18 : ℕ) : ℤ) = j) (hib : i.natAbs ≤ 2 ^ 127) (hjb : j.natAbs ≤ 2 ^ 127) :
    ∃ d, mul.foldDecimal fixed.scale (.finite a) (.finite b) = .ok d := by
  have hgrid : (a.mul b).val * 10 ^ ((36 : ℕ) : ℤ) = (i * j : ℤ) := by
    have hten : (10 : ℚ) ^ ((36 : ℕ) : ℤ) = 10 ^ ((18 : ℕ) : ℤ) * 10 ^ ((18 : ℕ) : ℤ) := by
      rw [← zpow_ten_add]
      rfl
    rw [Scaled.val_mul, hten, mul_mul_mul_comm, hi, hj, Int.cast_mul]
  have hbound : (i * j).natAbs < 10 ^ 77 := by
    rw [Int.natAbs_mul]
    calc i.natAbs * j.natAbs ≤ 2 ^ 127 * 2 ^ 127 := Nat.mul_le_mul hib hjb
      _ < 10 ^ 77 := by norm_num
  obtain ⟨z, hz, hval⟩ := Context.fit_wide_defined hgrid
    (hbound.trans (Nat.pow_lt_pow_right (by decide) (by decide))) (by decide)
  refine quantized_defined (Decimal.mul_eq_ok.mpr ⟨z, hz, rfl⟩) ?_
  have hbound' : ((i * j).natAbs : ℚ) < 10 ^ (77 : ℤ) := by exact_mod_cast hbound
  calc z.magnitude = (i * j).natAbs * 10 ^ (-(36 : ℕ) : ℤ) :=
        Scaled.magnitude_of_grid (hval ▸ hgrid)
    _ ≤ (i * j).natAbs * 10 ^ (0 : ℤ) :=
        mul_le_mul_of_nonneg_left (zpow_ten_le (by decide)) (Nat.cast_nonneg _)
    _ < 10 ^ (77 : ℤ) := by rwa [zpow_zero, mul_one]

theorem div_defined (hi : a.val * 10 ^ ((18 : ℕ) : ℤ) = i)
    (hj : b.val * 10 ^ ((18 : ℕ) : ℤ) = j) (hib : i.natAbs ≤ 2 ^ 127) (hjb : j.natAbs ≤ 2 ^ 127)
    (hb : b.val ≠ 0) : ∃ d, div.foldDecimal fixed.scale (.finite a) (.finite b) = .ok d := by
  have hwide : (2 : ℕ) ^ 127 < 10 ^ 39 := by norm_num
  have hjpos : 0 < j.natAbs := by
    rw [Int.natAbs_pos]
    intro hj0
    rw [hj0, Int.cast_zero, mul_eq_zero, or_iff_left (zpow_ten_ne_zero _)] at hj
    exact hb hj
  have hx := Scaled.magnitude_of_grid hi
  have hy := Scaled.magnitude_of_grid hj
  have ha := hib.trans_lt hwide
  obtain ⟨z, hz⟩ := Context.fit_div_defined hx hy ha hjpos Context.wide_roomy (by decide)
  have hlt := Context.fit_div_lt Context.wide_divides hx hy ha hjpos (hjb.trans_lt hwide) hz
  refine quantized_defined (z := z) ?_ (hlt.trans_le (zpow_ten_le (by decide)))
  have hb0 : b.coefficient ≠ 0 := fun h => hb (Scaled.val_eq_zero.mpr h)
  simp only [Decimal.div]
  rw [if_neg hb0, hz]
  rfl

theorem foldDecimal_defined (ha : fixed.Holds (.number a.val)) (hb : fixed.Holds (.number b.val))
    (hzero : ¬ (op = .div ∧ b.val = 0)) :
    ∃ d, op.foldDecimal fixed.scale (.finite a) (.finite b) = .ok d := by
  obtain ⟨i, hi, hib⟩ := grid_of_holds_fixed ha
  obtain ⟨j, hj, hjb⟩ := grid_of_holds_fixed hb
  cases op with
  | add => exact add_defined hi hj hib hjb
  | sub =>
    have hj' : b.flip.val * 10 ^ ((18 : ℕ) : ℤ) = (-j : ℤ) := by
      rw [Scaled.val_flip, neg_mul, hj, Int.cast_neg]
    exact add_defined hi hj' hib (by rwa [Int.natAbs_neg])
  | mul => exact mul_defined hi hj hib hjb
  | div => exact div_defined hi hj hib hjb fun h0 => hzero ⟨rfl, h0⟩

theorem foldInt_defined {m n : ℤ} (hzero : ¬ (op = .div ∧ n = 0)) :
    ∃ k, op.foldInt m n = .ok k := by
  cases op with
  | add | sub | mul => exact ⟨_, rfl⟩
  | div => exact ⟨_, if_neg fun h0 => hzero ⟨rfl, h0⟩⟩

theorem fold_defined {ty : ScalarType} (hty : ty ∈ table) {p q : Payload} {x y : ℚ}
    (hp : p.datum = .number x) (hq : q.datum = .number y) (hx : ty.Holds (.number x))
    (hy : ty.Holds (.number y)) (hzero : ¬ (op = .div ∧ y = 0)) :
    ∃ r, op.fold ty p q = .ok r := by
  by_cases hk : ty.kind = .decimal
  · obtain rfl := eq_fixed ty hty hk
    obtain ⟨a, ha, rfl⟩ := Payload.toDecimal_of_datum hp
    obtain ⟨b, hb, rfl⟩ := Payload.toDecimal_of_datum hq
    obtain ⟨d, hd⟩ := foldDecimal_defined hx hy hzero
    refine ⟨.decimal d, ?_⟩
    simp only [fold, hk, ha, hb, bind, Except.bind, pure, Except.pure]
    rw [hd]
    rfl
  · obtain ⟨m, rfl⟩ := integer_of_holds hty hk hx
    obtain ⟨n, rfl⟩ := integer_of_holds hty hk hy
    have hzero' : ¬ (op = .div ∧ n = 0) := by simpa using hzero
    obtain ⟨k, hk'⟩ := foldInt_defined (m := m) hzero'
    refine ⟨.int k, ?_⟩
    rw [fold_eq_foldInt hk hp hq, hk']
    rfl

theorem foldInt_lt {i j r : ℤ} (hi : i.natAbs < 10 ^ 78) (hj : j.natAbs < 10 ^ 78)
    (h : op.foldInt i j = .ok r) : r.natAbs < 10 ^ 156 := by
  cases op with
  | add =>
    obtain rfl : i + j = r := by simpa [foldInt] using h
    have := Int.natAbs_add_le i j
    omega
  | sub =>
    obtain rfl : i - j = r := by simpa [foldInt] using h
    have := Int.natAbs_sub_le i j
    omega
  | mul =>
    obtain rfl : i * j = r := by simpa [foldInt] using h
    rw [Int.natAbs_mul]
    exact (Nat.mul_lt_mul'' hi hj).trans_eq (pow_add 10 78 78).symm
  | div =>
    simp only [foldInt] at h
    split_ifs at h
    obtain rfl : i.tdiv j = r := by simpa using h
    have := Int.natAbs_tdiv_le_natAbs i j
    omega

theorem hasText_fold {ty : ScalarType} (hty : ty ∈ table) {p q r : Payload} {x y : ℚ}
    (hp : p.datum = .number x) (hq : q.datum = .number y) (hx : ty.Holds (.number x))
    (hy : ty.Holds (.number y)) (h : op.fold ty p q = .ok r) : r.HasText := by
  by_cases hk : ty.kind = .decimal
  · rw [fold, hk] at h
    obtain ⟨_, -, h⟩ := bind_eq_ok.mp h
    obtain ⟨_, -, h⟩ := bind_eq_ok.mp h
    obtain ⟨_, -, h⟩ := bind_eq_ok.mp h
    obtain rfl := pure_eq_ok.mp h
    trivial
  · obtain ⟨m, rfl⟩ := integer_of_holds hty hk hx
    obtain ⟨n, rfl⟩ := integer_of_holds hty hk hy
    rw [fold_eq_foldInt hk hp hq] at h
    obtain ⟨k, hfold, h⟩ := bind_eq_ok.mp h
    obtain rfl := pure_eq_ok.mp h
    have hlt := foldInt_lt (natAbs_lt_of_holds hty hx) (natAbs_lt_of_holds hty hy) hfold
    exact lt_of_digits hlt (by decide)

end ArithOp

end ContractGuard
