import ContractGuard.Proofs.Scalar.Legality

/-!
# The grid of the fixed-point type

The check of a fixed-point literal compares a number with bounds that are quotients, and then
with itself after a rounding. All the same it answers for every payload, and what it accepts
are the 128-bit multiples of the last place. Of a number written with other digits it says the
same.
-/

namespace ContractGuard.ScalarType

variable {p : Payload} {x : Scaled}

/-- A whole number of units of the last place, and a 128-bit one. -/
def OnFixedGrid (q : ℚ) : Prop := ∃ i : ℤ, q * 10 ^ 18 = i ∧ -2 ^ 127 ≤ i ∧ i ≤ 2 ^ 127 - 1

theorem onFixedGrid_intCast (n : ℤ) :
    OnFixedGrid n ↔ -2 ^ 127 ≤ n * 10 ^ 18 ∧ n * 10 ^ 18 ≤ 2 ^ 127 - 1 := by
  constructor
  · rintro ⟨i, hi, hbounds⟩
    obtain rfl : n * 10 ^ 18 = i := by exact_mod_cast hi
    exact hbounds
  · intro hbounds
    exact ⟨n * 10 ^ 18, by push_cast; rfl, hbounds⟩

theorem fixed_lower_quotient :
    (Decimal.ofInt (-2 ^ 127)).div .wide (.ofInt (10 ^ 18)) =
      .ok (.finite ⟨true, 2 ^ 127, -18⟩) := by
  decide +kernel

theorem fixed_upper_quotient :
    (Decimal.ofInt (2 ^ 127 - 1)).div .wide (.ofInt (10 ^ 18)) =
      .ok (.finite ⟨false, 2 ^ 127 - 1, -18⟩) := by
  decide +kernel

theorem fixed_answers (p : Payload) :
    ∃ legal, fixed.literalInRange p = .ok legal ∧ (legal = true ↔ fixed.Holds p.datum) := by
  have hmem : fixed ∈ table := by decide
  obtain ⟨legal, hlegal⟩ := literalInRange_defined hmem p
  refine ⟨legal, hlegal, ?_⟩
  rw [← literalInRange_fixed_iff, hlegal, Except.ok.injEq]

theorem fixed_answers_number (hp : p.number? = some x) :
    ∃ legal, fixed.literalInRange p = .ok legal ∧ (legal = true ↔ OnFixedGrid x.val) := by
  obtain ⟨legal, hlegal, hiff⟩ := fixed_answers p
  exact ⟨legal, hlegal, by rw [hiff, Payload.datum_of_number? hp, holds_fixed_iff, OnFixedGrid]⟩

theorem fixed_refuses (h : p.datum = .meaningless) : fixed.literalInRange p = .ok false := by
  obtain ⟨legal, hlegal, hiff⟩ := fixed_answers p
  rw [h] at hiff
  rw [hlegal, Bool.eq_false_iff.mpr fun hl => (hiff.mp hl).1.elim]

/-- What the check of a fixed-point literal answers, and with which bounds. -/
structure FixedLegality : Prop where
  bounds : ∃ lower upper, (Decimal.ofInt (-2 ^ 127)).div .wide (.ofInt (10 ^ 18)) = .ok lower ∧
    (Decimal.ofInt (2 ^ 127 - 1)).div .wide (.ofInt (10 ^ 18)) = .ok upper ∧
    fixed.bounds = .ok ⟨.decimal lower, .decimal upper⟩
  decimals : ∀ d : Decimal, ∃ legal, fixed.literalInRange (.decimal d) = .ok legal ∧
    (legal = true ↔ ∃ x, d = .finite x ∧ OnFixedGrid x.val)
  integers : ∀ n : ℤ, ∃ legal, fixed.literalInRange (.int n) = .ok legal ∧
    (legal = true ↔ -2 ^ 127 ≤ n * 10 ^ 18 ∧ n * 10 ^ 18 ≤ 2 ^ 127 - 1)
  cohorts : ∀ p q x y, p.number? = some x → q.number? = some y → x.val = y.val →
    fixed.literalInRange p = fixed.literalInRange q

theorem fixed_legality : FixedLegality := by
  constructor
  case bounds =>
    exact ⟨_, _, fixed_lower_quotient, fixed_upper_quotient, bounds_eq (by decide)⟩
  case decimals =>
    intro d
    cases d with
    | finite x =>
      obtain ⟨legal, hlegal, hiff⟩ := fixed_answers_number (p := .decimal (.finite x)) rfl
      exact ⟨legal, hlegal, by simpa using hiff⟩
    | infinite _ | nan _ _ _ => exact ⟨false, fixed_refuses rfl, by simp⟩
  case integers =>
    intro n
    obtain ⟨legal, hlegal, hiff⟩ := fixed_answers_number (p := .int n) rfl
    rw [Scaled.val_ofInt, onFixedGrid_intCast] at hiff
    exact ⟨legal, hlegal, hiff⟩
  case cohorts =>
    intro p q x y hp hq hval
    obtain ⟨legal, hlegal, hiff⟩ := fixed_answers_number hp
    obtain ⟨legal', hlegal', hiff'⟩ := fixed_answers_number hq
    rw [hlegal, hlegal', Bool.eq_iff_iff.mpr (hiff.trans (hval ▸ hiff'.symm))]

theorem fixed_legality_zeros :
    Payload.number? (.int 1) = some ⟨false, 1, 0⟩ ∧
      Payload.number? (.decimal (.finite ⟨false, 10 ^ 300, -300⟩)) =
        some ⟨false, 10 ^ 300, -300⟩ ∧
      (⟨false, 1, 0⟩ : Scaled).val = (⟨false, 10 ^ 300, -300⟩ : Scaled).val ∧
      fixed.literalInRange (.int 1) =
        fixed.literalInRange (.decimal (.finite ⟨false, 10 ^ 300, -300⟩)) := by
  have hval : (⟨false, 1, 0⟩ : Scaled).val = (⟨false, 10 ^ 300, -300⟩ : Scaled).val := by
    norm_num [Scaled.val, Scaled.signed]
  exact ⟨rfl, rfl, hval, fixed_legality.cohorts _ _ _ _ rfl rfl hval⟩

end ContractGuard.ScalarType
