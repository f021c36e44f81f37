import ContractGuard.Proofs.Decimal.Exact
import ContractGuard.Proofs.Lowering.Blame

/-!
# Legal literals

The check of a fixed-point literal compares it with itself moved to the last place of the
type. It accepts exactly the numbers of the type, however they are written. The other types
are checked directly: an integer type accepts the integers that it holds, and a byte type the
strings of its length.
-/

namespace ContractGuard

variable {ty : ScalarType} {p : Payload} {x : Scaled} {q : ℚ} {n : ℤ}

namespace ScalarType

theorem onGrid_of_grid (h : fixed.InRange x.val) (hgrid : ∃ i : ℤ, x.val * 10 ^ fixed.scale = i) :
    fixed.onGrid x = .ok true := by
  obtain ⟨i, hi⟩ := hgrid
  obtain ⟨moved, hmoved⟩ := Context.quantizeFinite_wide .halfEven (magnitude_lt_of_inRange h)
  have hsame : x.same moved = true :=
    Scaled.same_iff.mpr (Context.quantizeFinite_exact hmoved (Scaled.magnitude_of_grid hi)).symm
  simp only [onGrid]
  rw [placeOf_fixed]
  change Context.wide.quantizeFinite .halfEven x (-18) >>= _ = _
  rw [hmoved]
  exact congrArg Except.ok hsame

theorem literalInRange_fixed (hx : p.number? = some x) (hrange : fixed.InRange x.val) :
    fixed.literalInRange p = Fault.ofSignal (fixed.onGrid x) := by
  have htable : fixed ∈ table := by decide
  have hkind : fixed.kind = .decimal := rfl
  have hcontains := (contains_iff htable hx).mpr hrange
  simp [literalInRange, bounds_eq htable, hkind, hx, hcontains, bind, Except.bind]

theorem literalInRange_of_holds (h : fixed.Holds p.datum) :
    fixed.literalInRange p = .ok true := by
  obtain ⟨hshaped, q, hreading, hrange⟩ := h
  cases hdatum : p.datum with
  | number q' =>
    rw [hdatum] at hshaped hreading
    obtain rfl : q' = q := Option.some.inj hreading
    obtain ⟨x, hx, rfl⟩ := Payload.number?_of_datum hdatum
    rw [literalInRange_fixed hx hrange, onGrid_of_grid hrange hshaped.2]
    rfl
  | bytes bs =>
    rw [hdatum] at hshaped
    exact absurd hshaped.1 (by decide)
  | meaningless =>
    rw [hdatum] at hshaped
    exact hshaped.elim

theorem literalInRange_fixed_iff :
    fixed.literalInRange p = .ok true ↔ fixed.Holds p.datum :=
  ⟨holds_of_literalInRange (by decide), literalInRange_of_holds⟩

theorem holds_fixed_iff :
    fixed.Holds (.number q) ↔
      ∃ i : ℤ, q * 10 ^ 18 = i ∧ -2 ^ 127 ≤ i ∧ i ≤ 2 ^ 127 - 1 := by
  have hscale : (10 : ℚ) ^ fixed.scale = 10 ^ 18 := zpow_natCast 10 18
  have hrange : ∀ i : ℤ, q * 10 ^ 18 = i →
      (fixed.InRange q ↔ -2 ^ 127 ≤ i ∧ i ≤ 2 ^ 127 - 1) := by
    intro i hi
    rw [InRange, hscale, hi, Int.cast_le, Int.cast_le]
    rfl
  constructor
  · rintro ⟨⟨-, i, hi⟩, q', hq, hq'⟩
    obtain rfl : q = q' := Option.some.inj hq
    rw [hscale] at hi
    exact ⟨i, hi, (hrange i hi).mp hq'⟩
  · rintro ⟨i, hi, hbounds⟩
    exact ⟨⟨by decide, i, hscale ▸ hi⟩, q, rfl, (hrange i hi).mpr hbounds⟩

/-- What a type takes as a literal. An integer type takes no decimals, not even whole ones. -/
structure Admits (ty : ScalarType) (p : Payload) : Prop where
  holds : ty.Holds p.datum
  integer : ty.kind = .uint ∨ ty.kind = .int → ∃ n, p = .int n

theorem Admits.hasText (h : ty ∈ table) (hp : ty.Admits p) : p.HasText :=
  Payload.hasText_of_holds h hp.holds

theorem literalInRange_int (h : ty ∈ table) (hk : ty.kind = .uint ∨ ty.kind = .int) :
    ty.literalInRange (.int n) = .ok (ty.layoutBounds.contains (.int n)) := by
  simp only [literalInRange, bounds_eq h]
  rcases hk with hk | hk <;> rw [hk] <;> rfl

theorem admits_int (h : ty ∈ table) (hk : ty.kind = .uint ∨ ty.kind = .int) :
    ty.Admits (.int n) ↔ ty.InRange n := by
  constructor
  · rintro ⟨⟨-, q, hq, hrange⟩, -⟩
    obtain rfl : (n : ℚ) = q := Option.some.inj hq
    exact hrange
  · intro hrange
    exact ⟨⟨shaped_number h hk n, n, rfl, hrange⟩, fun _ => ⟨n, rfl⟩⟩

theorem eq_int_of_literalInRange (hk : ty.kind = .uint ∨ ty.kind = .int)
    (h : ty.literalInRange p = .ok true) : ∃ n, p = .int n := by
  obtain ⟨range, -, h⟩ := bind_eq_ok.mp h
  cases p with
  | int n => exact ⟨n, rfl⟩
  | _ => rcases hk with hk | hk <;> simp [hk] at h

theorem literalInRange_iff (h : ty ∈ table) : ty.literalInRange p = .ok true ↔ ty.Admits p := by
  constructor
  · intro hp
    exact ⟨holds_of_literalInRange h hp, fun hk => eq_int_of_literalInRange hk hp⟩
  · intro hp
    cases hk : ty.kind with
    | uint | int =>
      obtain ⟨n, rfl⟩ := hp.integer (by simp [hk])
      have hrange := (admits_int h (by simp [hk])).mp hp
      rw [← Scaled.val_ofInt n] at hrange
      rw [literalInRange_int h (by simp [hk]), (contains_iff h rfl).mpr hrange]
    | decimal =>
      obtain rfl := eq_fixed ty h hk
      exact literalInRange_of_holds hp.holds
    | bytes =>
      obtain ⟨bs, hbs, hlength⟩ := bytes_of_holds hk hp.holds
      obtain rfl := Payload.eq_bytes_of_datum hbs
      simp [literalInRange, bounds_eq h, hk, hlength]

end ScalarType

end ContractGuard
