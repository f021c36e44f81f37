import ContractGuard.Proofs.Decimal.Rounding
import ContractGuard.Proofs.Wording
import ContractGuard.BigEndian
import ContractGuard.Scalar.Literal

/-!
# Run-time values and their types

At run time a value is a number or a byte string. A type holds the numbers of its grid
within its range, or the byte strings of its length. What the range table and the check
of literals say is the same, said of payloads.
-/

namespace ContractGuard

namespace BigEndian

theorem decode_append (bs : List UInt8) (b : UInt8) :
    decode (bs ++ [b]) = 256 * decode bs + b.toNat := by
  simp [decode]

theorem decode_lt (bs : List UInt8) : decode bs < count bs.length := by
  change decode bs < 256 ^ bs.length
  induction bs using List.reverseRecOn with
  | nil => decide
  | append_singleton bs b ih =>
    have hb := b.toNat_lt
    rw [decode_append, List.length_append, List.length_singleton, Nat.pow_succ]
    omega

theorem length_encode (length n : ℕ) : (encode length n).length = length := by
  induction length generalizing n with
  | zero => rfl
  | succ length ih => simp [encode, ih]

theorem count_eq (length : ℕ) : count length = 2 ^ (8 * length) := by
  change 256 ^ length = _
  rw [Nat.pow_mul]

theorem decodeSigned_bounds {bs : List UInt8} (h : 0 < bs.length) :
    -2 ^ (8 * bs.length - 1) ≤ decodeSigned bs ∧ decodeSigned bs ≤ 2 ^ (8 * bs.length - 1) - 1 := by
  have hlt := decode_lt bs
  have hcount : count bs.length = 2 * 2 ^ (8 * bs.length - 1) := by
    rw [count_eq, ← Nat.pow_succ']
    congr 1
    omega
  have hpow : ((2 ^ (8 * bs.length - 1) : ℕ) : ℤ) = 2 ^ (8 * bs.length - 1) := by push_cast; rfl
  simp only [decodeSigned]
  rw [hcount] at hlt ⊢
  rw [← hpow]
  split_ifs <;> omega

end BigEndian

inductive Datum where
  | number (q : ℚ)
  | bytes (bs : List UInt8)
  | meaningless
deriving DecidableEq

/-- The number that ranges are about; a byte string counts as a big-endian number. -/
def Datum.reading? : Datum → Option ℚ
  | number q => some q
  | bytes bs => some (BigEndian.decode bs)
  | meaningless => none

def Payload.datum : Payload → Datum
  | .int n => .number n
  | .decimal (.finite x) => .number x.val
  | .bytes bs => .bytes bs
  | _ => .meaningless

theorem Payload.datum_of_number? {p : Payload} {x : Scaled} (h : p.number? = some x) :
    p.datum = .number x.val := by
  cases p with
  | int n =>
    obtain rfl : Scaled.ofInt n = x := by simpa [number?] using h
    rw [Scaled.val_ofInt]
    rfl
  | decimal d =>
    cases d with
    | finite y =>
      obtain rfl : y = x := by simpa [number?] using h
      rfl
    | _ => simp [number?] at h
  | _ => simp [number?] at h

theorem Payload.number?_of_datum {p : Payload} {q : ℚ} (h : p.datum = .number q) :
    ∃ x, p.number? = some x ∧ x.val = q := by
  cases p with
  | int n => exact ⟨_, rfl, (Scaled.val_ofInt n).trans (by simpa [datum] using h)⟩
  | decimal d =>
    cases d with
    | finite x => exact ⟨x, rfl, by simpa [datum] using h⟩
    | _ => simp [datum] at h
  | _ => simp [datum] at h

theorem Payload.eq_bytes_of_datum {p : Payload} {bs : List UInt8} (h : p.datum = .bytes bs) :
    p = .bytes bs := by
  cases p with
  | bytes bs' => simpa [datum] using h
  | decimal d => cases d <;> simp [datum] at h
  | _ => simp [datum] at h

theorem Payload.isZero_iff {p : Payload} {q : ℚ} (h : p.datum = .number q) :
    p.isZero = true ↔ q = 0 := by
  cases p with
  | int n =>
    obtain rfl : (n : ℚ) = q := by simpa [datum] using h
    simp [isZero, number?, Scaled.ofInt]
  | decimal d =>
    cases d with
    | finite y =>
      obtain rfl : y.val = q := by simpa [datum] using h
      simp [isZero, number?, Scaled.val_eq_zero]
    | _ => simp [datum] at h
  | _ => simp [datum] at h

namespace ScalarType

variable {ty : ScalarType}

def lowest (ty : ScalarType) : ℤ :=
  match ty.kind with
  | .uint | .bytes => 0
  | .int | .decimal => -2 ^ (ty.bits - 1).toNat

def highest (ty : ScalarType) : ℤ :=
  match ty.kind with
  | .uint | .bytes => 2 ^ ty.bits.toNat - 1
  | .int | .decimal => 2 ^ (ty.bits - 1).toNat - 1

def InRange (ty : ScalarType) (q : ℚ) : Prop :=
  ty.lowest ≤ q * 10 ^ ty.scale ∧ q * 10 ^ ty.scale ≤ ty.highest

instance (ty : ScalarType) (q : ℚ) : Decidable (ty.InRange q) :=
  inferInstanceAs (Decidable (_ ∧ _))

/-- Of the kind and on the grid of the type, in range or not. -/
def Shaped (ty : ScalarType) : Datum → Prop
  | .number q => ty.kind ≠ .bytes ∧ ∃ i : ℤ, q * 10 ^ ty.scale = i
  | .bytes bs => ty.kind = .bytes ∧ (bs.length : ℤ) = ty.byteLength
  | .meaningless => False

def Holds (ty : ScalarType) (d : Datum) : Prop :=
  ty.Shaped d ∧ ∃ q, d.reading? = some q ∧ ty.InRange q

theorem find?_eq_some {name : String} (h : find? name = some ty) :
    ty ∈ table ∧ ty.name = name := by
  have hm := List.mem_of_find?_eq_some h
  have hp := List.find?_some h
  exact ⟨hm, by simpa using hp⟩

theorem find?_name : ∀ ty ∈ table, find? ty.name = some ty := by decide

theorem scale_eq_zero : ∀ ty ∈ table, ty.kind ≠ .decimal → ty.scale = 0 := by decide

theorem eq_fixed : ∀ ty ∈ table, ty.kind = .decimal → ty = fixed := by decide

theorem bits_eq : ∀ ty ∈ table, ty.kind = .bytes → ty.bits = 8 * ty.byteLength := by decide

theorem bits_pos : ∀ ty ∈ table, 0 < ty.bits := by decide

theorem byteLength_nonneg : ∀ ty ∈ table, 0 ≤ ty.byteLength := by decide

theorem isNumeric_iff : ty.isNumeric = true ↔ ty.kind ≠ .bytes := by
  simp [isNumeric]

theorem isNumeric_of_integer (h : ty.kind = .uint ∨ ty.kind = .int) : ty.isNumeric = true := by
  rw [isNumeric_iff]
  rcases h with h | h <;> simp [h]

theorem eq_of_name_eq {source target : ScalarType} (hs : source ∈ table) (ht : target ∈ table)
    (h : source.name = target.name) : source = target := by
  have hfind := find?_name source hs
  rw [h, find?_name target ht] at hfind
  exact (Option.some.inj hfind).symm

theorem bounds_eq (h : ty ∈ table) : ty.bounds = .ok ty.layoutBounds := by
  simp only [bounds, boundsOf, named]
  rw [find?_name ty h]
  rfl

theorem layoutBounds_eq (h : ty ∈ table) {range : Bounds} (hrange : ty.bounds = .ok range) :
    ty.layoutBounds = range :=
  Except.ok.inj ((bounds_eq h).symm.trans hrange)

theorem layoutBounds_number? (h : ty ∈ table) :
    ∃ lo hi, ty.layoutBounds.lower.number? = some lo ∧ ty.layoutBounds.upper.number? = some hi ∧
      lo.val = ty.lowest * 10 ^ (-ty.scale) ∧ hi.val = ty.highest * 10 ^ (-ty.scale) := by
  have hscale := scale_eq_zero ty h
  have hpow : ∀ n : ℕ, 1 ≤ 2 ^ n := fun n => Nat.one_le_two_pow
  cases hk : ty.kind with
  | uint | bytes =>
    refine ⟨.ofInt 0, .ofInt (2 ^ ty.bits.toNat - 1 : ℕ), ?_, ?_, ?_, ?_⟩
    · simp [layoutBounds, hk, Payload.number?]
    · simp [layoutBounds, hk, Payload.number?]
    · simp [Scaled.val_ofInt, lowest, hk]
    · rw [Scaled.val_ofInt, hscale (by simp [hk])]
      simp [highest, hk, Nat.cast_sub (hpow _)]
  | int =>
    refine ⟨.ofInt (-(2 ^ (ty.bits - 1).toNat : ℕ)), .ofInt (2 ^ (ty.bits - 1).toNat - 1 : ℕ),
      ?_, ?_, ?_, ?_⟩
    · simp [layoutBounds, hk, Payload.number?]
    · simp [layoutBounds, hk, Payload.number?]
    · rw [Scaled.val_ofInt, hscale (by simp [hk])]
      simp [lowest, hk]
    · rw [Scaled.val_ofInt, hscale (by simp [hk])]
      simp [highest, hk, Nat.cast_sub (hpow _)]
  | decimal =>
    refine ⟨⟨true, 2 ^ (ty.bits - 1).toNat, -ty.scale⟩,
      ⟨false, 2 ^ (ty.bits - 1).toNat - 1, -ty.scale⟩, ?_, ?_, ?_, ?_⟩
    · simp [layoutBounds, hk, Payload.number?]
    · simp [layoutBounds, hk, Payload.number?]
    · simp [Scaled.val, Scaled.signed, lowest, hk]
    · simp [Scaled.val, Scaled.signed, highest, hk, Nat.cast_sub (hpow _)]

theorem inRange_iff (q : ℚ) :
    ty.InRange q ↔ ty.lowest * 10 ^ (-ty.scale) ≤ q ∧ q ≤ ty.highest * 10 ^ (-ty.scale) := by
  simp only [InRange]
  rw [zpow_neg, ← div_eq_mul_inv, ← div_eq_mul_inv, div_le_iff₀ (zpow_ten_pos _),
    le_div_iff₀ (zpow_ten_pos _)]

theorem inRange_int {n : ℤ} (h : ty ∈ table) (hk : ty.kind = .uint ∨ ty.kind = .int) :
    ty.InRange n ↔ ty.lowest ≤ n ∧ n ≤ ty.highest := by
  have hscale : ty.scale = 0 := scale_eq_zero ty h (by rcases hk with hk | hk <;> simp [hk])
  rw [InRange, hscale, zpow_zero, mul_one, Int.cast_le, Int.cast_le]

theorem abs_le_of_inRange (h : ty ∈ table) {q : ℚ} (hq : ty.InRange q) : |q| ≤ 2 ^ 256 := by
  have hscale : ∀ ty ∈ table, 0 ≤ ty.scale := by decide
  have hlimits : ∀ ty ∈ table, -2 ^ 256 ≤ ty.lowest ∧ ty.highest ≤ 2 ^ 256 := by decide +kernel
  have hone : (1 : ℚ) ≤ 10 ^ ty.scale := one_le_zpow₀ (by norm_num) (hscale ty h)
  obtain ⟨hlowest, hhighest⟩ := hlimits ty h
  have hlow : (-2 ^ 256 : ℚ) ≤ ty.lowest := by exact_mod_cast hlowest
  have hhigh : (ty.highest : ℚ) ≤ 2 ^ 256 := by exact_mod_cast hhighest
  calc |q| ≤ |q| * 10 ^ ty.scale := le_mul_of_one_le_right (abs_nonneg _) hone
    _ = |q * 10 ^ ty.scale| := by rw [abs_mul, abs_of_pos (zpow_ten_pos _)]
    _ ≤ 2 ^ 256 := abs_le.mpr ⟨hlow.trans hq.1, hq.2.trans hhigh⟩

theorem contains_iff (h : ty ∈ table) {p : Payload} {x : Scaled} (hx : p.number? = some x) :
    ty.layoutBounds.contains p = true ↔ ty.InRange x.val := by
  obtain ⟨lo, hi, hlo, hhi, hlov, hhiv⟩ := layoutBounds_number? h
  rw [inRange_iff, ← hlov, ← hhiv]
  simp [Bounds.contains, Payload.le, hlo, hhi, hx, Scaled.le_iff]

theorem natAbs_lt_of_inRange (h : ty ∈ table) {n : ℤ} (hn : ty.InRange n) :
    n.natAbs < 10 ^ 78 := by
  have habs := abs_le_of_inRange h hn
  rw [← Int.cast_abs, Int.abs_eq_natAbs] at habs
  have hle : n.natAbs ≤ 2 ^ 256 := by exact_mod_cast habs
  exact hle.trans_lt (by norm_num)

theorem hasText_of_contains (h : ty ∈ table) {p : Payload}
    (hp : ty.layoutBounds.contains p = true) : p.HasText := by
  cases p with
  | int n =>
    have hrange := (contains_iff h rfl).mp hp
    rw [Scaled.val_ofInt] at hrange
    exact lt_of_digits (natAbs_lt_of_inRange h hrange) (by decide)
  | null | bool _ | decimal _ | bytes _ | text _ => trivial

theorem contains_of_number (h : ty ∈ table) {p : Payload} {q : ℚ} (hq : p.datum = .number q) :
    ty.layoutBounds.contains p = true ↔ ty.InRange q := by
  obtain ⟨x, hx, rfl⟩ := Payload.number?_of_datum hq
  exact contains_iff h hx

theorem inRange_decode (h : ty ∈ table) (hk : ty.kind = .bytes) {bs : List UInt8}
    (hl : (bs.length : ℤ) = ty.byteLength) : ty.InRange (BigEndian.decode bs) := by
  have hlt := BigEndian.decode_lt bs
  have hbits : ty.bits.toNat = 8 * bs.length := by
    have := bits_eq ty h hk
    omega
  rw [BigEndian.count_eq, ← hbits] at hlt
  have hle : ((BigEndian.decode bs : ℕ) : ℚ) + 1 ≤ 2 ^ ty.bits.toNat := by exact_mod_cast hlt
  simp only [InRange]
  rw [scale_eq_zero ty h (by simp [hk]), zpow_zero, mul_one]
  constructor
  · simp [lowest, hk]
  · simp only [highest, hk]
    push_cast
    linarith

theorem placeOf_fixed : Context.plain.placeOf fixed.scale = .ok (-18) := by decide +kernel

theorem grid_of_onGrid {x : Scaled} (h : fixed.onGrid x = .ok true) :
    ∃ i : ℤ, x.val * 10 ^ fixed.scale = i := by
  simp only [onGrid] at h
  rw [placeOf_fixed] at h
  change Context.wide.quantizeFinite .halfEven x (-18) >>= _ = _ at h
  cases hq : Context.wide.quantizeFinite .halfEven x (-18) with
  | error e => simp [hq, bind, Except.bind] at h
  | ok moved =>
    have hsame : x.same moved = true := by simpa [hq, bind, Except.bind, pure, Except.pure] using h
    have hexp := (Context.quantized_of_eq_ok hq).exponent
    refine ⟨moved.signed, ?_⟩
    rw [Scaled.same_iff.mp hsame]
    simp only [Scaled.val]
    rw [hexp, mul_assoc, ← zpow_ten_add]
    simp [fixed]

theorem holds_number (h : ty ∈ table) (hk : ty.kind ≠ .bytes) {p : Payload} {x : Scaled}
    (hx : p.number? = some x) (hc : ty.layoutBounds.contains p = true)
    (hg : ∃ i : ℤ, x.val * 10 ^ ty.scale = i) : ty.Holds p.datum := by
  rw [Payload.datum_of_number? hx]
  exact ⟨⟨hk, hg⟩, x.val, rfl, (contains_iff h hx).mp hc⟩

theorem holds_of_literalInRange (h : ty ∈ table) {p : Payload}
    (hp : ty.literalInRange p = .ok true) : ty.Holds p.datum := by
  simp only [literalInRange, bounds_eq h, bind, Except.bind, pure, Except.pure] at hp
  split at hp
  · next bs hk =>
    have hl : (bs.length : ℤ) = ty.byteLength := by simpa using hp
    exact ⟨⟨hk, hl⟩, _, rfl, inRange_decode h hk hl⟩
  · simp at hp
  · next value hk =>
    obtain rfl := eq_fixed ty h hk
    split at hp
    · next x hx =>
      split_ifs at hp with hc
      · have hg : fixed.onGrid x = .ok true := by
          cases ho : fixed.onGrid x <;> simp_all [Fault.ofSignal]
        exact holds_number h (by decide) hx hc (grid_of_onGrid hg)
      · simp at hp
    · simp at hp
  · next n hb hd =>
    have hc : ty.layoutBounds.contains (.int n) = true := by simpa using hp
    refine holds_number h (fun hk => hb hk) rfl hc ⟨n, ?_⟩
    rw [scale_eq_zero ty h (fun hk => hd hk), Scaled.val_ofInt, zpow_zero, mul_one]
  · simp at hp

theorem integer_of_holds (h : ty ∈ table) (hk : ty.kind ≠ .decimal) {q : ℚ}
    (hq : ty.Holds (.number q)) : ∃ n : ℤ, q = n := by
  obtain ⟨⟨-, n, hn⟩, -⟩ := hq
  rw [scale_eq_zero ty h hk, zpow_zero, mul_one] at hn
  exact ⟨n, hn⟩

theorem natAbs_lt_of_holds (h : ty ∈ table) {n : ℤ} (hn : ty.Holds (.number n)) :
    n.natAbs < 10 ^ 78 := by
  obtain ⟨-, _, hq, hrange⟩ := hn
  obtain rfl := Option.some.inj hq
  exact natAbs_lt_of_inRange h hrange

end ScalarType

/-- What a type of the table can hold is short enough to be written. -/
theorem Payload.hasText_of_holds {ty : ScalarType} (h : ty ∈ ScalarType.table) {p : Payload}
    (hp : ty.Holds p.datum) : p.HasText := by
  cases p with
  | int n => exact lt_of_digits (ScalarType.natAbs_lt_of_holds h hp) (by decide)
  | null | bool _ | decimal _ | bytes _ | text _ => trivial

end ContractGuard
