import ContractGuard.Arithmetic.Fold
import ContractGuard.Proofs.Decimal.Quotient
import ContractGuard.Proofs.Scalar.Datum

/-!
# Folding is exact

On legal operands folding computes the operation on rational numbers: whole numbers
are added, subtracted and multiplied exactly and divided toward zero, and fixed-point
products and quotients are cut toward zero at the last place. The context in which the
decimals are computed is wide enough that it never shows.
-/

namespace ContractGuard

/-- Whole numbers and sums stay exact; other results end at the last place of the type. -/
def ArithOp.meaning (op : ArithOp) (ty : ScalarType) (x y : ℚ) : ℚ :=
  match op with
  | add => x + y
  | sub => x - y
  | mul => if ty.kind = .decimal then cut ty.scale (x * y) else x * y
  | div => cut ty.scale (x / y)

theorem whole_natCast_div (a b : ℕ) : whole ((a : ℚ) / b) = ((a / b : ℕ) : ℤ) := by
  rw [whole_of_nonneg (by positivity), Rat.floor_natCast_div_natCast]
  rfl

theorem whole_div (m n : ℤ) : whole ((m : ℚ) / n) = m.tdiv n := by
  rcases Int.eq_nat_or_neg m with ⟨a, rfl | rfl⟩ <;>
    rcases Int.eq_nat_or_neg n with ⟨b, rfl | rfl⟩
  · simpa using whole_natCast_div a b
  · simpa [div_neg, whole_neg] using whole_natCast_div a b
  · simpa [neg_div, whole_neg] using whole_natCast_div a b
  · simpa [neg_div_neg_eq] using whole_natCast_div a b

namespace Payload

variable {p : Payload} {q : ℚ}

theorem toInt_of_datum (h : p.datum = .number q) : p.toInt = .ok (whole q) := by
  cases p with
  | int n =>
    obtain rfl : (n : ℚ) = q := by simpa [datum] using h
    rw [whole_intCast]
    rfl
  | decimal d =>
    cases d with
    | finite x =>
      obtain rfl : x.val = q := by simpa [datum] using h
      rw [← Scaled.truncate_eq_whole]
      rfl
    | _ => simp [datum] at h
  | _ => simp [datum] at h

theorem toDecimal_of_datum (h : p.datum = .number q) :
    ∃ x, p.toDecimal = .ok (.finite x) ∧ x.val = q := by
  cases p with
  | int n => exact ⟨_, rfl, (Scaled.val_ofInt n).trans (by simpa [datum] using h)⟩
  | decimal d =>
    cases d with
    | finite x => exact ⟨_, rfl, by simpa [datum] using h⟩
    | _ => simp [datum] at h
  | _ => simp [datum] at h

end Payload

theorem Scaled.magnitude_of_grid {x : Scaled} {s : ℤ} {i : ℤ} (h : x.val * 10 ^ s = i) :
    x.magnitude = i.natAbs * 10 ^ (-s) := by
  have hx : x.val = i * 10 ^ (-s) := by
    rw [← h, mul_assoc, ← zpow_ten_add, add_neg_cancel, zpow_zero, mul_one]
  rw [← abs_val, hx, abs_mul, abs_of_pos (zpow_ten_pos _), Nat.cast_natAbs, Int.cast_abs]

namespace Context

variable {x y z w : Scaled}

theorem fit_wide {s : ℕ} {i : ℤ} (hx : x.val * 10 ^ (s : ℤ) = i) (hi : i.natAbs < 10 ^ 96)
    (hs : s ≤ 36) (h : wide.fit x = .ok z) : z.val = x.val := by
  have hm := Scaled.magnitude_of_grid hx
  have hlt : x.magnitude < 10 ^ (wide.maxExponent + 1) := by
    have hi' : (i.natAbs : ℚ) < 10 ^ (96 : ℤ) := by exact_mod_cast hi
    calc x.magnitude = i.natAbs * 10 ^ (-s : ℤ) := hm
      _ ≤ i.natAbs * 10 ^ (0 : ℤ) :=
          mul_le_mul_of_nonneg_left (zpow_ten_le (by omega)) (Nat.cast_nonneg _)
      _ < 10 ^ (96 : ℤ) := by rwa [zpow_zero, mul_one]
      _ ≤ 10 ^ (wide.maxExponent + 1) := zpow_ten_le (by decide)
  have htiny : wide.tiny ≤ -s := by
    have : wide.tiny = -1000094 := by decide
    omega
  obtain ⟨z', hz', hn, hmag⟩ := fit_exact hm hi htiny hlt
  obtain rfl : z' = z := by simpa [hz'] using h
  exact (Scaled.val_eq_iff hn).mpr hmag

theorem wide_divides : wide.Divides 39 18 := ⟨by decide, by decide, by decide, by decide⟩

theorem placeOf_wide : wide.placeOf ScalarType.fixed.scale = .ok (-18) := by decide +kernel

end Context

section

variable {ctx : Context} {a b : Scaled} {d : Decimal}

theorem fitted_eq_ok {x : Except Signal Scaled} :
    (do return .finite (← x) : Except Signal Decimal) = .ok d ↔
      ∃ z, x = .ok z ∧ d = .finite z := by
  cases x <;> simp [bind, Except.bind, pure, Except.pure, eq_comm]

theorem Decimal.add_eq_ok :
    (Decimal.finite a).add ctx (.finite b) = .ok d ↔
      ∃ z, ctx.fit (a.add b) = .ok z ∧ d = .finite z := fitted_eq_ok

theorem Decimal.mul_eq_ok :
    (Decimal.finite a).mul ctx (.finite b) = .ok d ↔
      ∃ z, ctx.fit (a.mul b) = .ok z ∧ d = .finite z := fitted_eq_ok

theorem Decimal.div_eq_ok (h : (Decimal.finite a).div ctx (.finite b) = .ok d) :
    b.coefficient ≠ 0 ∧ ∃ z, ctx.fit (a.div ctx.precision b) = .ok z ∧ d = .finite z := by
  simp only [Decimal.div] at h
  split_ifs at h with hb
  exact ⟨hb, fitted_eq_ok.mp h⟩

theorem Context.quantize_eq_ok {mode : Rounding} {place : ℤ} :
    ctx.quantize mode (.finite a) place = .ok d ↔
      ∃ z, ctx.quantizeFinite mode a place = .ok z ∧ d = .finite z := fitted_eq_ok

theorem quantized_eq_ok {x : Except Signal Decimal} {ty : ScalarType} (hty : ty = .fixed)
    (h : (do
      let place ← Context.wide.placeOf ty.scale
      Context.wide.quantize .towardZero (← x) place : Except Signal Decimal) = .ok d) :
    ∃ y, x = .ok y ∧ Context.wide.quantize .towardZero y (-18) = .ok d := by
  rw [hty, Context.placeOf_wide] at h
  cases hx : x with
  | error e => simp [hx, bind, Except.bind] at h
  | ok y => exact ⟨y, rfl, by simpa [hx, bind, Except.bind] using h⟩

end

namespace ArithOp

open ScalarType

variable {op : ArithOp} {a b : Scaled} {d : Decimal}

theorem grid_of_holds_fixed {q : ℚ} (h : fixed.Holds (.number q)) :
    ∃ i : ℤ, q * 10 ^ ((18 : ℕ) : ℤ) = i ∧ i.natAbs ≤ 2 ^ 127 := by
  obtain ⟨⟨_, i, hi⟩, q', hq, hlow, hhigh⟩ := h
  obtain rfl : q = q' := by simpa [Datum.reading?] using hq
  have hi' : q * 10 ^ ((18 : ℕ) : ℤ) = i := hi
  refine ⟨i, hi', ?_⟩
  rw [hi] at hlow hhigh
  have hlow' : -(2 ^ 127) ≤ i := by exact_mod_cast hlow
  have hhigh' : i ≤ 2 ^ 127 - 1 := by exact_mod_cast hhigh
  omega

theorem add_exact {i j : ℤ} (hi : a.val * 10 ^ ((18 : ℕ) : ℤ) = i)
    (hj : b.val * 10 ^ ((18 : ℕ) : ℤ) = j) (hib : i.natAbs ≤ 2 ^ 127) (hjb : j.natAbs ≤ 2 ^ 127)
    (h : (Decimal.finite a).add .wide (.finite b) = .ok d) :
    ∃ z, d = .finite z ∧ z.val = a.val + b.val := by
  obtain ⟨z, hz, rfl⟩ := Decimal.add_eq_ok.mp h
  have hval := Scaled.val_add a b
  have hgrid : (a.add b).val * 10 ^ ((18 : ℕ) : ℤ) = (i + j : ℤ) := by
    rw [hval, add_mul, hi, hj, Int.cast_add]
  exact ⟨z, rfl, (Context.fit_wide hgrid (by omega) (by decide) hz).trans hval⟩

theorem mul_exact {i j : ℤ} (hi : a.val * 10 ^ ((18 : ℕ) : ℤ) = i)
    (hj : b.val * 10 ^ ((18 : ℕ) : ℤ) = j) (hib : i.natAbs ≤ 2 ^ 127) (hjb : j.natAbs ≤ 2 ^ 127)
    (h : mul.foldDecimal fixed.scale (.finite a) (.finite b) = .ok d) :
    ∃ z, d = .finite z ∧ z.val = cut 18 (a.val * b.val) := by
  obtain ⟨y, hy, hq⟩ := quantized_eq_ok rfl h
  obtain ⟨z, hz, rfl⟩ := Decimal.mul_eq_ok.mp hy
  obtain ⟨w, hw, rfl⟩ := Context.quantize_eq_ok.mp hq
  have hval := Scaled.val_mul a b
  have hgrid : (a.mul b).val * 10 ^ ((36 : ℕ) : ℤ) = (i * j : ℤ) := by
    have hten : (10 : ℚ) ^ ((36 : ℕ) : ℤ) = 10 ^ ((18 : ℕ) : ℤ) * 10 ^ ((18 : ℕ) : ℤ) := by
      rw [← zpow_ten_add]
      rfl
    rw [hval, hten, mul_mul_mul_comm, hi, hj, Int.cast_mul]
  have hbound : (i * j).natAbs < 10 ^ 96 := by
    rw [Int.natAbs_mul]
    calc i.natAbs * j.natAbs ≤ 2 ^ 127 * 2 ^ 127 := Nat.mul_le_mul hib hjb
      _ < 10 ^ 96 := by norm_num
  have hfit := (Context.fit_wide hgrid hbound (by decide) hz).trans hval
  refine ⟨w, rfl, ?_⟩
  rw [(Context.quantized_of_eq_ok hw).val_eq_cut, hfit]
  rfl

theorem div_exact {i j : ℤ} (hi : a.val * 10 ^ ((18 : ℕ) : ℤ) = i)
    (hj : b.val * 10 ^ ((18 : ℕ) : ℤ) = j) (hib : i.natAbs ≤ 2 ^ 127) (hjb : j.natAbs ≤ 2 ^ 127)
    (h : div.foldDecimal fixed.scale (.finite a) (.finite b) = .ok d) :
    ∃ z, d = .finite z ∧ z.val = cut 18 (a.val / b.val) := by
  obtain ⟨y, hy, hq⟩ := quantized_eq_ok rfl h
  obtain ⟨hb, z, hz, rfl⟩ := Decimal.div_eq_ok hy
  obtain ⟨w, hw, rfl⟩ := Context.quantize_eq_ok.mp hq
  have hjpos : 0 < j.natAbs := by
    rw [Int.natAbs_pos]
    intro hj0
    rw [hj0, Int.cast_zero, mul_eq_zero, or_iff_left (zpow_ten_ne_zero _)] at hj
    exact hb (Scaled.val_eq_zero.mp hj)
  have hwide : (2 : ℕ) ^ 127 < 10 ^ 39 := by norm_num
  exact ⟨w, rfl, Context.quantize_div Context.wide_divides (Scaled.magnitude_of_grid hi)
    (Scaled.magnitude_of_grid hj) (hib.trans_lt hwide) hjpos (hjb.trans_lt hwide) hz
    (Context.quantized_of_eq_ok hw)⟩

theorem foldDecimal_exact (ha : fixed.Holds (.number a.val)) (hb : fixed.Holds (.number b.val))
    (h : op.foldDecimal fixed.scale (.finite a) (.finite b) = .ok d) :
    ∃ z, d = .finite z ∧ z.val = op.meaning fixed a.val b.val := by
  obtain ⟨i, hi, hib⟩ := grid_of_holds_fixed ha
  obtain ⟨j, hj, hjb⟩ := grid_of_holds_fixed hb
  cases op with
  | add => exact add_exact hi hj hib hjb h
  | sub =>
    have hj' : b.flip.val * 10 ^ ((18 : ℕ) : ℤ) = (-j : ℤ) := by
      rw [Scaled.val_flip, neg_mul, hj, Int.cast_neg]
    obtain ⟨z, rfl, hz⟩ := add_exact hi hj' hib (by rwa [Int.natAbs_neg]) h
    refine ⟨z, rfl, hz.trans ?_⟩
    rw [Scaled.val_flip]
    exact (sub_eq_add_neg _ _).symm
  | mul => exact mul_exact hi hj hib hjb h
  | div => exact div_exact hi hj hib hjb h

theorem foldInt_exact {ty : ScalarType} (hty : ty ∈ table) (hk : ty.kind ≠ .decimal)
    {m n k : ℤ} (h : op.foldInt m n = .ok k) : (k : ℚ) = op.meaning ty m n := by
  have hscale := scale_eq_zero ty hty hk
  cases op with
  | add =>
    obtain rfl : m + n = k := by simpa [foldInt] using h
    exact Int.cast_add m n
  | sub =>
    obtain rfl : m - n = k := by simpa [foldInt] using h
    exact Int.cast_sub m n
  | mul =>
    obtain rfl : m * n = k := by simpa [foldInt] using h
    simp [meaning, hk]
  | div =>
    simp only [foldInt] at h
    split_ifs at h with hn
    obtain rfl : m.tdiv n = k := by simpa using h
    simp only [meaning, hscale, cut_zero_digits, whole_div]

theorem fold_eq_foldInt {ty : ScalarType} (hk : ty.kind ≠ .decimal) {p q : Payload} {m n : ℤ}
    (hp : p.datum = .number m) (hq : q.datum = .number n) :
    op.fold ty p q = (do return .int (← op.foldInt m n)) := by
  have hm := Payload.toInt_of_datum hp
  have hn := Payload.toInt_of_datum hq
  rw [whole_intCast] at hm hn
  simp only [fold]
  rw [hm, hn]
  cases hkind : ty.kind with
  | decimal => exact absurd hkind hk
  | uint | int | bytes => rfl

theorem fold_exact {ty : ScalarType} (hty : ty ∈ table) {p q r : Payload} {x y : ℚ}
    (hp : p.datum = .number x) (hq : q.datum = .number y) (hx : ty.Holds (.number x))
    (hy : ty.Holds (.number y)) (h : op.fold ty p q = .ok r) :
    r.datum = .number (op.meaning ty x y) := by
  by_cases hk : ty.kind = .decimal
  · obtain rfl := eq_fixed ty hty hk
    obtain ⟨a, ha, rfl⟩ := Payload.toDecimal_of_datum hp
    obtain ⟨b, hb, rfl⟩ := Payload.toDecimal_of_datum hq
    simp only [fold, hk, ha, hb, bind, Except.bind, pure, Except.pure] at h
    cases hd : op.foldDecimal fixed.scale (.finite a) (.finite b) with
    | error e => simp [hd, Fault.ofSignal] at h
    | ok d =>
      obtain rfl : Payload.decimal d = r := by simpa [hd, Fault.ofSignal] using h
      obtain ⟨z, rfl, hz⟩ := foldDecimal_exact hx hy hd
      exact congrArg Datum.number hz
  · obtain ⟨m, rfl⟩ := integer_of_holds hty hk hx
    obtain ⟨n, rfl⟩ := integer_of_holds hty hk hy
    rw [fold_eq_foldInt hk hp hq] at h
    cases hi : op.foldInt m n with
    | error e => simp [hi, bind, Except.bind] at h
    | ok k =>
      obtain rfl : Payload.int k = r := by simpa [hi, bind, Except.bind, pure, Except.pure] using h
      exact congrArg Datum.number (foldInt_exact hty hk hi)

end ArithOp

end ContractGuard
