import ContractGuard.Proofs.Scalar.Legality
import ContractGuard.Proofs.Semantics.Simulation

/-!
# Folding on whole numbers

Counted in units of the last place the legal fixed-point literals are the 128-bit integers,
and folding computes on these counts: sums and differences exactly, products and quotients
cut toward zero. Integers are the case in which the unit is one. A folded number is on the
grid of its type, so comparing it with the bounds is all that it takes to find it legal.
-/

namespace ContractGuard

open ScalarType

variable {op : ArithOp} {ty : ScalarType} {p q r : Payload} {i j : ℤ}
  {v w u : TypedValue} {span : Span} {b b' : Buffer}

/-- The payload is the fixed-point number of `i` units, in whatever form it is written. -/
structure Payload.Counts (p : Payload) (i : ℤ) : Prop where
  datum : p.datum = .number (i / 10 ^ 18)
  lower : -2 ^ 127 ≤ i
  upper : i ≤ 2 ^ 127 - 1

theorem units_mul (i : ℤ) : (i / 10 ^ 18 : ℚ) * 10 ^ 18 = i :=
  div_mul_cancel₀ _ (by norm_num)

theorem Payload.Counts.holds (h : p.Counts i) : fixed.Holds (.number (i / 10 ^ 18)) :=
  holds_fixed_iff.mpr ⟨i, units_mul i, h.lower, h.upper⟩

theorem legal_fixed_iff : fixed.literalInRange p = .ok true ↔ ∃ i, p.Counts i := by
  rw [literalInRange_fixed_iff]
  constructor
  · intro h
    obtain ⟨x, hx⟩ := number_of_holds (by decide) h
    obtain ⟨i, hi, hlow, hhigh⟩ := holds_fixed_iff.mp (hx ▸ h)
    refine ⟨i, ?_, hlow, hhigh⟩
    rw [hx, ← hi, mul_div_cancel_right₀ x (by norm_num)]
  · rintro ⟨i, h⟩
    exact h.datum ▸ h.holds

namespace ArithOp

/-- The operation on numbers counted in units of which `unit` make one. A part of a unit is
cut off toward zero. -/
def exact (op : ArithOp) (unit i j : ℤ) : ℤ :=
  match op with
  | add => i + j
  | sub => i - j
  | mul => (i * j).tdiv unit
  | div => (i * unit).tdiv j

theorem cut_units {x : ℚ} {m n : ℤ} (h : x * 10 ^ 18 = m / n) :
    cut fixed.scale x = (m.tdiv n : ℤ) / 10 ^ 18 := by
  have hscale : (10 : ℚ) ^ fixed.scale = 10 ^ 18 := zpow_natCast 10 18
  simp only [cut]
  rw [zpow_neg, hscale, h, whole_div, div_eq_mul_inv]

theorem meaning_units (op : ArithOp) (i j : ℤ) :
    op.meaning fixed (i / 10 ^ 18) (j / 10 ^ 18) = (op.exact (10 ^ 18) i j : ℤ) / 10 ^ 18 := by
  cases op with
  | add => simp only [meaning, exact, Int.cast_add, add_div]
  | sub => simp only [meaning, exact, Int.cast_sub, sub_div]
  | mul =>
    refine cut_units ?_
    rw [mul_assoc, units_mul, Int.cast_mul, Int.cast_pow, Int.cast_ofNat, div_mul_eq_mul_div]
  | div =>
    refine cut_units ?_
    rw [div_div_div_cancel_right₀ (by norm_num), Int.cast_mul, Int.cast_pow, Int.cast_ofNat,
      div_mul_eq_mul_div]

theorem fold_integer (hk : ty.kind ≠ .decimal) (h : op.fold ty p q = .ok r) :
    ∃ n, r = .int n := by
  simp only [fold] at h
  cases hkind : ty.kind with
  | decimal => exact absurd hkind hk
  | _ =>
    simp only [bind_eq_ok, pure_eq_ok] at h
    obtain ⟨_, _, _, _, n, _, rfl⟩ := h
    exact ⟨n, rfl⟩

theorem fold_decimal (hk : ty.kind = .decimal) (h : op.fold ty p q = .ok r) :
    ∃ d, r = .decimal d := by
  simp only [fold, hk, bind_eq_ok, pure_eq_ok] at h
  obtain ⟨_, _, _, _, d, _, rfl⟩ := h
  exact ⟨d, rfl⟩

theorem fold_units (hp : p.Counts i) (hq : q.Counts j) (hzero : op = .div → j ≠ 0) :
    ∃ z : Scaled, op.fold fixed p q = .ok (.decimal (.finite z)) ∧
      z.val = (op.exact (10 ^ 18) i j : ℤ) / 10 ^ 18 := by
  have hdivisor : ¬ (op = .div ∧ (j / 10 ^ 18 : ℚ) = 0) := by
    rintro ⟨hop, hj⟩
    refine hzero hop ?_
    rw [div_eq_zero_iff, or_iff_left (by norm_num)] at hj
    exact_mod_cast hj
  obtain ⟨r, hr⟩ := fold_defined (by decide) hp.datum hq.datum hp.holds hq.holds hdivisor
  have hd := fold_exact (by decide) hp.datum hq.datum hp.holds hq.holds hr
  obtain ⟨d, rfl⟩ := fold_decimal rfl hr
  obtain ⟨z, rfl, hz⟩ : ∃ z, d = .finite z ∧
      z.val = op.meaning fixed (i / 10 ^ 18) (j / 10 ^ 18) := by
    cases d with
    | finite z => exact ⟨z, rfl, by simpa [Payload.datum] using hd⟩
    | _ => simp [Payload.datum] at hd
  exact ⟨z, hr, hz.trans (meaning_units op i j)⟩

theorem fold_int (hk : ty.kind ≠ .decimal) (hzero : op = .div → j ≠ 0) :
    op.fold ty (.int i) (.int j) = .ok (.int (op.exact 1 i j)) := by
  have hfold : op.foldInt i j = .ok (op.exact 1 i j) := by
    cases op with
    | add | sub => rfl
    | mul => simp [foldInt, exact]
    | div => simp [foldInt, exact, hzero rfl]
  simp only [fold]
  cases hkind : ty.kind with
  | decimal => exact absurd hkind hk
  | _ => simp [Payload.toInt, hfold, bind, Except.bind, pure, Except.pure]

theorem admits_fold (hty : ty ∈ table) (hnum : ty.isNumeric = true) (hp : ty.Admits p)
    (hq : ty.Admits q) (hr : op.fold ty p q = .ok r) (hc : ty.layoutBounds.contains r = true) :
    ty.Admits r := by
  have hk := isNumeric_iff.mp hnum
  obtain ⟨x, hx⟩ := number_of_holds hk hp.holds
  obtain ⟨y, hy⟩ := number_of_holds hk hq.holds
  obtain ⟨hdatum, hholds⟩ := holds_fold hty hx hy (hx ▸ hp.holds) (hy ▸ hq.holds) hr hc
  refine ⟨hdatum ▸ hholds, fun hkind => ?_⟩
  exact fold_integer (by rcases hkind with hkind | hkind <;> simp [hkind]) hr

end ArithOp

theorem guard_legal {op : OperatorName} (h : (guard op v w span).Yields b u b')
    (hv : v.ty ∈ table) : u.ty = v.ty ∧ u.Legal := by
  obtain ⟨known, folded, -, hplanned, hemits⟩ := guard_yields.mp h
  refine ⟨hemits.ty_eq, ?_⟩
  intro hl
  rw [hemits.ty_eq, literalInRange_iff hv]
  cases hemits with
  | clamped _ _ _ =>
    obtain ⟨r, hf, hvalue⟩ := ArithOp.folded_of_literal hl
    obtain ⟨hlv, hlw, hfold, range, hb, hc⟩ := hplanned.both_literal hf
    obtain rfl := layoutBounds_eq hv hb
    have hw := hplanned.legalRight hlw
    rw [← hplanned.sameType, literalInRange_iff hv] at hw
    rw [hvalue]
    exact ArithOp.admits_fold hv hplanned.numeric
      ((literalInRange_iff hv).mp (hplanned.legalLeft hlv)) hw hfold hc

structure ArithOp.FoldsExactly (op : ArithOp) : Prop where
  literals : ∀ p, fixed.literalInRange p = .ok true ↔ ∃ i, p.Counts i
  units : ∀ p q i j, p.Counts i → q.Counts j → (op = .div → j ≠ 0) →
    ∃ z : Scaled, op.fold fixed p q = .ok (.decimal (.finite z)) ∧
      z.val = (op.exact (10 ^ 18) i j : ℤ) / 10 ^ 18
  integers : ∀ ty ∈ table, ty.kind = .uint ∨ ty.kind = .int → ∀ i j, (op = .div → j ≠ 0) →
    op.fold ty (.int i) (.int j) = .ok (.int (op.exact 1 i j))
  legal : ∀ v w span b u b', v.ty ∈ table → (guard (.known op) v w span).Yields b u b' →
    u.isLiteral = true → u.ty = v.ty ∧ u.ty.literalInRange u.value = .ok true

theorem folds_exactly (op : ArithOp) : op.FoldsExactly := by
  constructor
  case literals => exact fun p => legal_fixed_iff
  case units => exact fun p q i j hp hq hzero => ArithOp.fold_units hp hq hzero
  case integers =>
    intro ty _ hk i j hzero
    exact ArithOp.fold_int (by rcases hk with hk | hk <;> simp [hk]) hzero
  case legal =>
    intro v w span b u b' hv h hl
    obtain ⟨hty, hlegal⟩ := guard_legal h hv
    exact ⟨hty, hlegal hl⟩

theorem folds_exactly_third :
    (Payload.int 1).Counts (10 ^ 18) ∧
      (Payload.decimal (.finite ⟨true, 30, -1⟩)).Counts (-3 * 10 ^ 18) ∧
      ∃ z : Scaled, ArithOp.div.fold fixed (.int 1) (.decimal (.finite ⟨true, 30, -1⟩)) =
          .ok (.decimal (.finite z)) ∧
        z.val = (-333333333333333333 : ℤ) / 10 ^ 18 := by
  have hone : (Payload.int 1).Counts (10 ^ 18) :=
    ⟨congrArg Datum.number (by norm_num), by norm_num, by norm_num⟩
  have hthree : (Payload.decimal (.finite ⟨true, 30, -1⟩)).Counts (-3 * 10 ^ 18) :=
    ⟨congrArg Datum.number (by norm_num [Scaled.val, Scaled.signed]), by norm_num, by norm_num⟩
  exact ⟨hone, hthree, (folds_exactly .div).units _ _ _ _ hone hthree fun _ => by norm_num⟩

end ContractGuard
