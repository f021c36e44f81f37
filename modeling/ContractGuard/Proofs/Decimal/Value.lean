import ContractGuard.Decimal.Arithmetic
import Mathlib.Algebra.Order.Field.Power
import Mathlib.Algebra.Order.Ring.Rat
import Mathlib.Data.Rat.Cast.Order
import Mathlib.Tactic.FieldSimp
import Mathlib.Tactic.Linarith
import Mathlib.Tactic.Positivity
import Mathlib.Tactic.Push
import Mathlib.Tactic.Ring

/-!
# The number that a decimal stands for

A finite decimal stands for a rational number. The order of decimals is the order of
these numbers, although it is decided digit by digit, and sums and products are exact.
-/

namespace ContractGuard

variable {a b n : ℕ} {i j : ℤ}

theorem tenPow_cast (n : ℕ) : ((tenPow n : ℕ) : ℚ) = 10 ^ n := by
  change ((10 ^ n : ℕ) : ℚ) = 10 ^ n
  push_cast
  rfl

theorem tenPow_pos (n : ℕ) : 0 < tenPow n := Nat.pow_pos (by decide)

theorem zpow_ten_pos (i : ℤ) : (0 : ℚ) < 10 ^ i := zpow_pos (by norm_num) i

theorem zpow_ten_ne_zero (i : ℤ) : (10 : ℚ) ^ i ≠ 0 := (zpow_ten_pos i).ne'

theorem zpow_ten_add (i j : ℤ) : (10 : ℚ) ^ (i + j) = 10 ^ i * 10 ^ j :=
  zpow_add₀ (by norm_num) i j

theorem zpow_ten_le (h : i ≤ j) : (10 : ℚ) ^ i ≤ 10 ^ j :=
  zpow_le_zpow_right₀ (by norm_num) h

theorem lt_of_zpow_ten_lt (h : (10 : ℚ) ^ i < 10 ^ j) : i < j :=
  (zpow_lt_zpow_iff_right₀ (by norm_num)).mp h

theorem tenPow_toNat_mul (h : j ≤ i) : (tenPow (i - j).toNat : ℚ) * 10 ^ j = 10 ^ i := by
  have he : ((i - j).toNat : ℤ) + j = i := by omega
  rw [tenPow_cast, ← zpow_natCast, ← zpow_ten_add, he]

theorem digitCount_pos (n : ℕ) : 0 < digitCount n := Nat.succ_pos _

theorem firstDigit_spec {fuel base : ℕ} (hn : n ≠ 0) (hbase : 0 < base)
    (hfuel : n < base ^ 2 ^ fuel) :
    (firstDigit n fuel base).1 < base ∧ (firstDigit n fuel base).1 ≠ 0 ∧
      n / base ^ (firstDigit n fuel base).2 = (firstDigit n fuel base).1 := by
  induction fuel generalizing base with
  | zero =>
    have hlt : n < base := by simpa using hfuel
    simpa [firstDigit] using ⟨hlt, hn⟩
  | succ fuel ih =>
    rw [firstDigit]
    split_ifs with hlt
    · simpa using ⟨hlt, hn⟩
    have hfuel' : n < (base * base) ^ 2 ^ fuel := by
      rwa [← Nat.pow_two, ← Nat.pow_mul, ← Nat.pow_succ']
    obtain ⟨hdigit, hne, hdiv⟩ := ih (Nat.mul_pos hbase hbase) hfuel'
    generalize firstDigit n fuel (base * base) = r at hdigit hne hdiv
    obtain ⟨digit, after⟩ := r
    rw [← Nat.pow_two, ← Nat.pow_mul] at hdiv
    dsimp only at hdigit hne hdiv ⊢
    split_ifs with hsmall
    · exact ⟨hsmall, hne, hdiv⟩
    · refine ⟨Nat.div_lt_of_lt_mul hdigit, ?_, ?_⟩
      · exact (Nat.div_pos (Nat.le_of_not_lt hsmall) hbase).ne'
      · rw [Nat.pow_succ, ← Nat.div_div_eq_div_mul, hdiv]

theorem digitCount_le_iff (h : 0 < a) : digitCount n ≤ a ↔ n < 10 ^ a := by
  by_cases hn : n = 0
  · subst hn
    exact iff_of_true h (Nat.pow_pos (by decide))
  have hfuel : n < 10 ^ 2 ^ n :=
    calc n < 2 ^ n := Nat.lt_two_pow_self
      _ < 10 ^ 2 ^ n := Nat.lt_pow_self (by decide)
  obtain ⟨hdigit, hne, hdiv⟩ := firstDigit_spec hn (by decide) hfuel
  have hpow : 0 < 10 ^ (firstDigit n n 10).2 := Nat.pow_pos (by decide)
  have hlow : 10 ^ (firstDigit n n 10).2 ≤ n := by
    by_contra hlt
    exact hne (hdiv ▸ Nat.div_eq_of_lt (Nat.lt_of_not_le hlt))
  have hhigh : n < 10 ^ ((firstDigit n n 10).2 + 1) := by
    rw [Nat.pow_succ]
    exact (Nat.div_lt_iff_lt_mul hpow).mp (hdiv ▸ hdigit) |>.trans_eq (Nat.mul_comm _ _)
  simp only [digitCount]
  constructor
  · intro hle
    exact hhigh.trans_le (Nat.pow_le_pow_right (by decide) hle)
  · intro hlt
    exact (Nat.pow_lt_pow_iff_right (by decide)).mp (hlow.trans_lt hlt)

theorem lt_pow_digitCount (n : ℕ) : n < 10 ^ digitCount n :=
  (digitCount_le_iff (digitCount_pos n)).mp (Nat.le_refl _)

theorem pow_digitCount_le (h : n ≠ 0) : 10 ^ (digitCount n - 1) ≤ n := by
  by_contra hlt
  have hpos := digitCount_pos n
  by_cases hone : digitCount n = 1
  · rw [hone] at hlt
    omega
  · have hle := (digitCount_le_iff (by omega)).mpr (Nat.lt_of_not_le hlt)
    omega

theorem zpow_digitCount_le (h : n ≠ 0) (i : ℤ) :
    (10 : ℚ) ^ (digitCount n + i - 1) ≤ n * 10 ^ i := by
  have hpos := digitCount_pos n
  have he : (digitCount n + i - 1 : ℤ) = ((digitCount n - 1 : ℕ) : ℤ) + i := by omega
  have hle : ((10 ^ (digitCount n - 1) : ℕ) : ℚ) ≤ n := by exact_mod_cast pow_digitCount_le h
  rw [he, zpow_ten_add, zpow_natCast]
  push_cast at hle
  exact mul_le_mul_of_nonneg_right hle (zpow_ten_pos i).le

theorem lt_zpow_digitCount (n : ℕ) (i : ℤ) : (n : ℚ) * 10 ^ i < 10 ^ (digitCount n + i) := by
  have hlt : (n : ℚ) < ((10 ^ digitCount n : ℕ) : ℚ) := by exact_mod_cast lt_pow_digitCount n
  rw [zpow_ten_add, zpow_natCast]
  push_cast at hlt
  exact mul_lt_mul_of_pos_right hlt (zpow_ten_pos i)

theorem digitCount_add_le (h : n ≠ 0) (hlt : (n : ℚ) * 10 ^ i < 10 ^ j) :
    digitCount n + i ≤ j := by
  have := lt_of_zpow_ten_lt ((zpow_digitCount_le h i).trans_lt hlt)
  omega

theorem lt_digitCount_add (h : (10 : ℚ) ^ j ≤ n * 10 ^ i) : j < digitCount n + i :=
  lt_of_zpow_ten_lt (h.trans_lt (lt_zpow_digitCount n i))

namespace Scaled

variable {x y : Scaled} {place : ℤ}

def val (x : Scaled) : ℚ := x.signed * 10 ^ x.exponent

def magnitude (x : Scaled) : ℚ := x.coefficient * 10 ^ x.exponent

theorem magnitude_nonneg (x : Scaled) : 0 ≤ x.magnitude :=
  mul_nonneg (Nat.cast_nonneg _) (zpow_ten_pos _).le

theorem magnitude_eq_zero : x.magnitude = 0 ↔ x.coefficient = 0 := by
  simp only [magnitude]
  rw [mul_eq_zero, or_iff_left (zpow_ten_ne_zero _), Nat.cast_eq_zero]

theorem magnitude_pos (h : x.coefficient ≠ 0) : 0 < x.magnitude :=
  lt_of_le_of_ne x.magnitude_nonneg (Ne.symm (mt magnitude_eq_zero.mp h))

theorem val_eq_magnitude (x : Scaled) :
    x.val = if x.negative then -x.magnitude else x.magnitude := by
  simp only [val, magnitude, signed]
  cases x.negative <;> simp

theorem val_eq_iff (h : y.negative = x.negative) : y.val = x.val ↔ y.magnitude = x.magnitude := by
  rw [val_eq_magnitude, val_eq_magnitude, h]
  split_ifs
  · exact neg_inj
  · rfl

theorem abs_val (x : Scaled) : |x.val| = x.magnitude := by
  rw [val_eq_magnitude]
  split_ifs
  · rw [abs_neg, abs_of_nonneg x.magnitude_nonneg]
  · exact abs_of_nonneg x.magnitude_nonneg

theorem val_eq_zero : x.val = 0 ↔ x.coefficient = 0 := by
  rw [← abs_eq_zero, abs_val, magnitude_eq_zero]

theorem signed_flip (x : Scaled) : x.flip.signed = -x.signed := by
  unfold signed flip
  cases x.negative <;> simp

theorem val_flip (x : Scaled) : x.flip.val = -x.val := by
  simp only [val]
  rw [signed_flip]
  simp [flip]

theorem on_mul (h : place ≤ x.exponent) : (x.on place : ℚ) * 10 ^ place = x.val := by
  simp only [on, val]
  push_cast
  rw [mul_assoc, tenPow_toNat_mul h]

theorem signed_sign_natAbs (negative : Bool) {total : ℤ} (place : ℤ)
    (h : total ≠ 0 → negative = decide (total < 0)) :
    (⟨negative, total.natAbs, place⟩ : Scaled).signed = total := by
  simp only [signed]
  by_cases hz : total = 0
  · simp [hz]
  · rw [h hz]
    by_cases hn : total < 0
    · simp only [hn, decide_true, if_true]
      omega
    · simp only [hn, decide_false, Bool.false_eq_true, if_false]
      omega

theorem val_ofInt (n : ℤ) : (ofInt n).val = n := by
  simp only [ofInt, val]
  rw [signed_sign_natAbs _ _ (fun _ => rfl)]
  simp

theorem val_add (x y : Scaled) : (x.add y).val = x.val + y.val := by
  have hx := on_mul (x := x) (min_le_left x.exponent y.exponent)
  have hy := on_mul (x := y) (min_le_right x.exponent y.exponent)
  simp only [add, val]
  rw [signed_sign_natAbs]
  · push_cast
    rw [add_mul, hx, hy]
    rfl
  · intro hz
    rw [if_neg hz]

theorem signed_mul (x y : Scaled) : (x.mul y).signed = x.signed * y.signed := by
  unfold signed mul
  cases x.negative <;> cases y.negative <;> simp

theorem val_mul (x y : Scaled) : (x.mul y).val = x.val * y.val := by
  simp only [val]
  rw [signed_mul]
  change ((x.signed * y.signed : ℤ) : ℚ) * 10 ^ (x.exponent + y.exponent) = _
  rw [zpow_ten_add]
  push_cast
  ring

theorem compares_of_scaled {a b c d : ℚ} {o : Ordering} (h : o.Compares a b) {s : ℚ}
    (hs : 0 < s) (hc : a * s = c) (hd : b * s = d) : o.Compares c d := by
  subst hc
  subst hd
  cases o with
  | lt => exact mul_lt_mul_of_pos_right h hs
  | eq => exact congrArg (· * s) h
  | gt => exact mul_lt_mul_of_pos_right h hs

theorem compares_natCast (a b : ℕ) : (compare a b).Compares (a : ℚ) (b : ℚ) := by
  have h : (compare a b).Compares a b := (compare_iff a b).mp rfl
  cases ho : compare a b with
  | lt => exact Nat.cast_lt.mpr (by rwa [ho] at h)
  | eq => exact congrArg Nat.cast (by rwa [ho] at h)
  | gt => exact Nat.cast_lt.mpr (by rwa [ho] at h)

theorem tenPow_mul_min (a : ℕ) (i j : ℤ) :
    ((a * tenPow (i - j).toNat : ℕ) : ℚ) * 10 ^ min i j = a * 10 ^ i := by
  have h : (i - j).toNat = (i - min i j).toNat := by omega
  push_cast
  rw [h, mul_assoc, tenPow_toNat_mul (min_le_left i j)]

theorem compareMagnitude_compares (a : ℕ) (i : ℤ) (b : ℕ) (j : ℤ) :
    (compareMagnitude a i b j).Compares ((a : ℚ) * 10 ^ i) ((b : ℚ) * 10 ^ j) := by
  simp only [compareMagnitude]
  by_cases hz : a = 0 ∨ b = 0
  · rw [if_pos hz]
    rcases hz with rfl | rfl
    · exact compares_of_scaled (compares_natCast 0 b) (zpow_ten_pos j) (by simp) rfl
    · exact compares_of_scaled (compares_natCast a 0) (zpow_ten_pos i) rfl (by simp)
  · rw [if_neg hz]
    obtain ⟨ha, hb⟩ := not_or.mp hz
    have hcmp := (compare_iff (digitCount a + i) (digitCount b + j)).mp rfl
    cases ho : compare (digitCount a + i) (digitCount b + j) with
    | lt =>
      have hlt : digitCount a + i < digitCount b + j := by rwa [ho] at hcmp
      calc (a : ℚ) * 10 ^ i < 10 ^ (digitCount a + i) := lt_zpow_digitCount a i
        _ ≤ 10 ^ (digitCount b + j - 1) := zpow_ten_le (by omega)
        _ ≤ b * 10 ^ j := zpow_digitCount_le hb j
    | gt =>
      have hlt : digitCount b + j < digitCount a + i := by rwa [ho] at hcmp
      calc (b : ℚ) * 10 ^ j < 10 ^ (digitCount b + j) := lt_zpow_digitCount b j
        _ ≤ 10 ^ (digitCount a + i - 1) := zpow_ten_le (by omega)
        _ ≤ a * 10 ^ i := zpow_digitCount_le ha i
    | eq =>
      refine compares_of_scaled (compares_natCast _ _) (zpow_ten_pos (min i j))
        (tenPow_mul_min a i j) ?_
      rw [min_comm, tenPow_mul_min]

theorem isNegative_iff : x.isNegative = true ↔ x.val < 0 := by
  have hm := x.magnitude_nonneg
  simp only [isNegative]
  rw [val_eq_magnitude]
  cases x.negative with
  | false => simpa using hm
  | true =>
    have hlt : 0 < x.magnitude ↔ x.coefficient ≠ 0 := by
      rw [lt_iff_le_and_ne, and_iff_right hm, ne_comm, ne_eq, magnitude_eq_zero]
    simpa using hlt.symm

theorem val_of_isNegative (h : x.isNegative = true) : x.val = -x.magnitude := by
  rw [← abs_val, abs_of_neg (isNegative_iff.mp h), neg_neg]

theorem val_of_not_isNegative (h : x.isNegative = false) : x.val = x.magnitude := by
  have hx : ¬ x.val < 0 := fun hn => by simp [isNegative_iff.mpr hn] at h
  rw [← abs_val, abs_of_nonneg (not_lt.mp hx)]

theorem order_compares (x y : Scaled) : (x.order y).Compares x.val y.val := by
  simp only [order]
  cases hx : x.isNegative with
  | false =>
    cases hy : y.isNegative with
    | false =>
      rw [val_of_not_isNegative hx, val_of_not_isNegative hy]
      exact compareMagnitude_compares _ _ _ _
    | true =>
      have hneg := isNegative_iff.mp hy
      have hnonneg : 0 ≤ x.val := val_of_not_isNegative hx ▸ x.magnitude_nonneg
      exact lt_of_lt_of_le hneg hnonneg
  | true =>
    cases hy : y.isNegative with
    | false =>
      have hneg := isNegative_iff.mp hx
      have hnonneg : 0 ≤ y.val := val_of_not_isNegative hy ▸ y.magnitude_nonneg
      exact lt_of_lt_of_le hneg hnonneg
    | true =>
      rw [val_of_isNegative hx, val_of_isNegative hy]
      have h := compareMagnitude_compares y.coefficient y.exponent x.coefficient x.exponent
      cases ho : compareMagnitude y.coefficient y.exponent x.coefficient x.exponent <;>
        rw [ho] at h
      · exact neg_lt_neg h
      · exact congrArg Neg.neg h.symm
      · exact neg_lt_neg h

theorem le_iff : x.le y = true ↔ x.val ≤ y.val := by
  simp only [le]
  rw [← (order_compares x y).ne_gt]
  cases x.order y <;> decide

theorem same_iff : x.same y = true ↔ x.val = y.val := by
  simp only [same]
  rw [beq_iff_eq, (order_compares x y).eq_eq]

end Scaled

end ContractGuard
