import ContractGuard.Proofs.Conversion.LifeCycle
import ContractGuard.Proofs.Semantics.Evaluation

/-!
# Checked steps

A clamp lets through exactly the values of its type, and the mode that a conversion
procedure chooses does to a value what the conversion means. Of a literal the procedure
returns the payload of the converted value.
-/

namespace ContractGuard

open ScalarType

variable {ty : ScalarType} {args : Arguments} {regs : Registers} {d e : Datum}

theorem confine_eq_ok {c : Cell} (h : ty.confine d = .ok c) (hs : ty.Shaped d) :
    c = ⟨ty, d⟩ ∧ ty.Holds d := by
  simp only [confine] at h
  cases hr : d.reading? with
  | none => simp [hr] at h
  | some q =>
    simp only [hr] at h
    split_ifs at h with hq
    exact ⟨by simpa using h.symm, hs, q, hr, hq⟩

theorem confine_of_holds (h : ty.Holds d) : ty.confine d = .ok ⟨ty, d⟩ := by
  obtain ⟨_, q, hr, hq⟩ := h
  simp only [confine]
  simp only [hr, if_pos hq]

theorem confine_eq_error {halt : Halt} (h : ty.confine d = .error halt) (hs : ty.Shaped d) :
    halt = .aborted .rangeViolation := by
  simp only [confine] at h
  cases hr : d.reading? with
  | none =>
    cases d with
    | meaningless => exact hs.elim
    | _ => simp [Datum.reading?] at hr
  | some q =>
    simp only [hr] at h
    split_ifs at h
    simpa using h.symm

theorem within_bounds (hty : ty ∈ table) {range : Bounds} (hb : ty.bounds = .ok range) {q : ℚ}
    (hq : d.reading? = some q) :
    Node.within range.lower range.upper d = .ok (decide (ty.InRange q)) := by
  obtain rfl := layoutBounds_eq hty hb
  obtain ⟨lo, hi, hlo, hhi, hlov, hhiv⟩ := layoutBounds_number? hty
  simp only [Node.within]
  rw [hq, Payload.datum_of_number? hlo, Payload.datum_of_number? hhi]
  simp only [Datum.reading?, hlov, hhiv]
  congr 1
  exact decide_eq_decide.mpr (inRange_iff q).symm

theorem step_clampTo (args : Arguments) (hty : ty ∈ table) {range : Bounds}
    (hb : ty.bounds = .ok range) (dest : ValueId) {src : ValueId} (hsrc : regs src = some d)
    (hs : ty.Shaped d) :
    (Node.clampTo dest src ty range).step args regs =
      (ty.confine d).map fun c => regs.write dest c.datum := by
  have hq : ∃ q, d.reading? = some q := by
    cases d with
    | meaningless => exact hs.elim
    | number q => exact ⟨q, rfl⟩
    | bytes bs => exact ⟨_, rfl⟩
  obtain ⟨q, hq⟩ := hq
  have hw := within_bounds hty hb hq
  simp only [Node.step, Registers.read, hsrc, confine, hq, bind, Except.bind, hw]
  by_cases hin : ty.InRange q
  · simp [hin, Except.map]
  · simp [hin, Except.map]

theorem shaped_number (hty : ty ∈ table) (hk : ty.kind = .uint ∨ ty.kind = .int) (n : ℤ) :
    ty.Shaped (.number n) := by
  rcases hk with hk | hk
  · exact ⟨by simp [hk], n, by rw [scale_eq_zero ty hty (by simp [hk]), zpow_zero, mul_one]⟩
  · exact ⟨by simp [hk], n, by rw [scale_eq_zero ty hty (by simp [hk]), zpow_zero, mul_one]⟩

theorem whole_of_holds (hty : ty ∈ table) (hk : ty.kind = .uint ∨ ty.kind = .int)
    (h : ty.Holds d) : ∃ n : ℤ, d = .number n := by
  obtain ⟨hs, _⟩ := h
  cases d with
  | number q =>
    obtain ⟨_, n, hn⟩ := hs
    have hscale : ty.scale = 0 := scale_eq_zero ty hty (by rcases hk with hk | hk <;> simp [hk])
    rw [hscale, zpow_zero, mul_one] at hn
    exact ⟨n, by rw [hn]⟩
  | bytes bs => rcases hk with hk | hk <;> simp [Shaped, hk] at hs
  | meaningless => exact hs.elim

theorem number_of_holds (hk : ty.kind ≠ .bytes) (h : ty.Holds d) : ∃ q, d = .number q := by
  obtain ⟨hs, _⟩ := h
  cases d with
  | number q => exact ⟨q, rfl⟩
  | bytes bs => exact absurd hs.1 hk
  | meaningless => exact hs.elim

theorem bytes_of_holds (hk : ty.kind = .bytes) (h : ty.Holds d) :
    ∃ bs : List UInt8, d = .bytes bs ∧ (bs.length : ℤ) = ty.byteLength := by
  obtain ⟨hs, _⟩ := h
  cases d with
  | number q => exact absurd hk hs.1
  | bytes bs => exact ⟨bs, rfl, hs.2⟩
  | meaningless => exact hs.elim

/-- What a procedure is to do to a value of the source type. -/
structure Recasts (v : TypedValue) (target : ScalarType) (d : Datum) (converted : Converted)
    (e : Datum) : Prop where
  recast : (⟨v.ty, d⟩ : Cell).recast? target = some e
  mode : converted.mode.apply target d = some e
  shaped : target.Shaped e
  literal : v.isLiteral = true → v.value.datum = d → converted.literal.datum = e

namespace Procedure

variable {v : TypedValue} {target : ScalarType} {span : Span} {converted : Converted}

theorem ifLiteral_eq_ok {payload : Except Fault Payload} {p : Payload} :
    ifLiteral v payload = .ok p ↔
      (v.isLiteral = true → payload = .ok p) ∧ (v.isLiteral = false → p = .null) := by
  simp only [ifLiteral]
  cases v.isLiteral <;> simp [eq_comm]

theorem ifLiteral_value {p : Payload} (h : ifLiteral v (pure v.value) = .ok p)
    (hl : v.isLiteral = true) (hd : v.value.datum = d) : p.datum = d := by
  obtain rfl : v.value = p := by simpa [pure, Except.pure] using (ifLiteral_eq_ok.mp h).1 hl
  exact hd

theorem refuseLength_eq {source : ScalarType} (hs : source ∈ table) (ht : target ∈ table) :
    refuseLength source target span =
      refuse source target ("length " ++ toString source.byteLength ++ " differs from " ++
        toString target.byteLength) span := by
  have hshort : ∀ ty ∈ table, integerText ty.byteLength = some (toString ty.byteLength) := by
    intro ty hty
    have hlt : ∀ ty ∈ table, ty.byteLength.natAbs < 10 ^ 2 := by decide
    exact integerText_of_lt (lt_of_digits (hlt ty hty) (by decide))
  rw [refuseLength, hshort source hs, hshort target ht]

theorem resizeMode_apply (source target : ScalarType) (d : Datum) :
    (resizeMode source target).apply target d = some d := by
  simp only [resizeMode]
  split_ifs <;> cases d <;> rfl

theorem wholePart_mode {source : ScalarType} {x : Decimal}
    (h : wholePart source target x span = .ok converted) : converted.mode = .fromFixed := by
  cases x with
  | finite x =>
    simp only [wholePart] at h
    split_ifs at h
    · simp [refuse] at h
    · cases h
      rfl
  | infinite negative => simp [wholePart] at h
  | nan signaling negative payload =>
    cases signaling <;> simp [wholePart, refuse] at h

theorem wholePart_literal {source : ScalarType} {x : Scaled}
    (h : wholePart source target (.finite x) span = .ok converted) :
    converted.literal.datum = .number (whole x.val) := by
  simp only [wholePart] at h
  split_ifs at h
  · simp [refuse] at h
  · cases h
    rw [← Scaled.truncate_eq_whole]
    rfl

theorem toInteger_recasts (hv : v.ty ∈ table) (ht : target ∈ table)
    (hk : target.kind = .uint ∨ target.kind = .int) (hd : v.ty.Holds d)
    (h : toInteger.run v target span = .ok converted) : ∃ e, Recasts v target d converted e := by
  simp only [toInteger] at h
  cases hs : v.ty.kind with
  | uint | int =>
    obtain ⟨n, rfl⟩ := whole_of_holds hv (by simp [hs]) hd
    simp only [hs] at h
    obtain ⟨p, hp, h⟩ := bind_eq_ok.mp h
    obtain rfl := pure_eq_ok.mp h
    refine ⟨.number n, ?_, resizeMode_apply _ _ _, shaped_number ht hk n, ?_⟩
    · rcases hk with hk | hk <;> simp [Cell.recast?, hs, hk]
    · exact ifLiteral_value hp
  | decimal =>
    obtain ⟨q, rfl⟩ := number_of_holds (by simp [hs]) hd
    simp only [hs] at h
    -- the payload is only computed for a literal, the mode is the same in any case
    have hmode : converted.mode = .fromFixed := by
      split_ifs at h
      · obtain ⟨x, _, h⟩ := bind_eq_ok.mp h
        exact wholePart_mode h
      · obtain rfl := pure_eq_ok.mp h
        rfl
    refine ⟨.number (whole q), ?_, by rw [hmode]; rfl, shaped_number ht hk _, ?_⟩
    · rcases hk with hk | hk <;> simp [Cell.recast?, hs, hk]
    · intro hlit hval
      rw [if_pos hlit] at h
      obtain ⟨x, hx, rfl⟩ := Payload.toDecimal_of_datum hval
      rw [hx] at h
      exact wholePart_literal h
  | bytes =>
    obtain ⟨bs, rfl, _⟩ := bytes_of_holds hs hd
    simp only [hs] at h
    by_cases hbits : v.ty.bits ≠ target.bits
    · simp [hbits, refuse] at h
    rw [if_neg hbits] at h
    obtain ⟨p, hp, h⟩ := bind_eq_ok.mp h
    obtain rfl := pure_eq_ok.mp h
    refine ⟨.number (if target.signed then BigEndian.decodeSigned bs else BigEndian.decode bs : ℤ),
      ?_, rfl, shaped_number ht hk _, ?_⟩
    · rcases hk with hk | hk <;> simp [Cell.recast?, hs, hk, not_not.mp hbits, signed]
    · intro hlit hval
      have hvalue : v.value = .bytes bs := Payload.eq_bytes_of_datum hval
      obtain ⟨bs', hbs, hp⟩ := bind_eq_ok.mp ((ifLiteral_eq_ok.mp hp).1 hlit)
      obtain rfl : bs = bs' := by simpa [hvalue, Payload.toBytes] using hbs
      obtain rfl := pure_eq_ok.mp hp
      rfl

theorem toDecimal_recasts (hv : v.ty ∈ table) (ht : target ∈ table)
    (hk : target.kind = .decimal) (hd : v.ty.Holds d)
    (h : toDecimal.run v target span = .ok converted) : ∃ e, Recasts v target d converted e := by
  obtain rfl := eq_fixed target ht hk
  simp only [toDecimal] at h
  cases hs : v.ty.kind with
  | uint | int =>
    obtain ⟨n, rfl⟩ := whole_of_holds hv (by simp [hs]) hd
    simp only [hs] at h
    obtain ⟨p, hp, h⟩ := bind_eq_ok.mp h
    obtain rfl := pure_eq_ok.mp h
    refine ⟨.number n, by simp [Cell.recast?, hs, hk], rfl, ⟨by decide, n * 10 ^ 18, ?_⟩, ?_⟩
    · push_cast
      rfl
    · intro hlit hval
      obtain ⟨x, hx, hp⟩ := bind_eq_ok.mp ((ifLiteral_eq_ok.mp hp).1 hlit)
      obtain ⟨y, hy, hyv⟩ := Payload.toDecimal_of_datum hval
      obtain rfl : Decimal.finite y = x := by simpa [hy] using hx
      obtain rfl := pure_eq_ok.mp hp
      exact congrArg Datum.number hyv
  | decimal =>
    obtain ⟨q, rfl⟩ := number_of_holds (by simp [hs]) hd
    simp only [hs] at h
    obtain ⟨p, hp, h⟩ := bind_eq_ok.mp h
    obtain rfl := pure_eq_ok.mp h
    have hshaped : fixed.Shaped (.number q) := eq_fixed v.ty hv hs ▸ hd.1
    refine ⟨.number q, by simp [Cell.recast?, hs, hk], rfl, hshaped, ?_⟩
    exact ifLiteral_value hp
  | bytes => simp [hs, refuse] at h

theorem toNat_lt_count (hv : v.ty ∈ table) (ht : target ∈ table) (hs : v.ty.kind = .uint)
    (hk : target.kind = .bytes) (hbits : v.ty.bits = target.bits) {n : ℤ}
    (hd : v.ty.Holds (.number n)) :
    0 ≤ n ∧ n.toNat < BigEndian.count target.byteLength.toNat := by
  obtain ⟨_, q, hq, hlow, hhigh⟩ := hd
  obtain rfl : (n : ℚ) = q := by simpa [Datum.reading?] using hq
  rw [scale_eq_zero v.ty hv (by simp [hs]), zpow_zero, mul_one] at hlow hhigh
  simp only [lowest, highest, hs] at hlow hhigh
  have hlow' : 0 ≤ n := by exact_mod_cast hlow
  have hhigh' : n ≤ 2 ^ v.ty.bits.toNat - 1 := by exact_mod_cast hhigh
  have hlen : v.ty.bits.toNat = 8 * target.byteLength.toNat := by
    have := bits_eq target ht hk
    omega
  have hpow : ((2 ^ (8 * target.byteLength.toNat) : ℕ) : ℤ) = 2 ^ v.ty.bits.toNat := by
    rw [hlen]
    push_cast
    rfl
  rw [BigEndian.count_eq]
  omega

theorem toBytes_recasts (hv : v.ty ∈ table) (ht : target ∈ table)
    (hk : target.kind = .bytes) (hd : v.ty.Holds d)
    (h : toBytes.run v target span = .ok converted) : ∃ e, Recasts v target d converted e := by
  simp only [toBytes] at h
  cases hs : v.ty.kind with
  | bytes =>
    obtain ⟨bs, rfl, hlen⟩ := bytes_of_holds hs hd
    simp only [hs] at h
    split_ifs at h with hlength
    · simp [refuseLength_eq hv ht, refuse] at h
    obtain ⟨p, hp, h⟩ := bind_eq_ok.mp h
    obtain rfl := pure_eq_ok.mp h
    have hlength' := not_not.mp hlength
    refine ⟨.bytes bs, by simp [Cell.recast?, hs, hk, hlength'], rfl, ⟨hk, hlen.trans hlength'⟩, ?_⟩
    exact ifLiteral_value hp
  | uint =>
    obtain ⟨n, rfl⟩ := whole_of_holds hv (Or.inl hs) hd
    simp only [hs] at h
    split_ifs at h with hbits
    · simp [refuse] at h
    obtain ⟨p, hp, h⟩ := bind_eq_ok.mp h
    obtain rfl := pure_eq_ok.mp h
    have hbits' := not_not.mp hbits
    obtain ⟨hnonneg, hlt⟩ := toNat_lt_count hv ht hs hk hbits' hd
    refine ⟨.bytes (BigEndian.encode target.byteLength.toNat n.toNat), ?_, ?_, ⟨hk, ?_⟩, ?_⟩
    · simp [Cell.recast?, hs, hk, hbits']
    · have hcast : (n : ℚ) = n.toNat := by exact_mod_cast (Int.toNat_of_nonneg hnonneg).symm
      simp only [ConvertMode.apply, whole_intCast]
      rw [if_pos ⟨hcast, hlt⟩]
    · rw [BigEndian.length_encode]
      exact Int.toNat_of_nonneg (byteLength_nonneg target ht)
    · intro hlit hval
      obtain ⟨m, hm, hp⟩ := bind_eq_ok.mp ((ifLiteral_eq_ok.mp hp).1 hlit)
      obtain ⟨bs, hbs, hp⟩ := bind_eq_ok.mp hp
      obtain rfl := pure_eq_ok.mp hp
      rw [Payload.toInt_of_datum hval, whole_intCast] at hm
      obtain rfl : n = m := by simpa using hm
      simp only [unsignedBytes] at hbs
      split_ifs at hbs
      obtain rfl : BigEndian.encode target.byteLength.toNat n.toNat = bs := by simpa using hbs
      rfl
  | int => simp [hs, refuse] at h
  | decimal => simp [hs, refuse] at h

theorem forKind_recasts (hv : v.ty ∈ table) (ht : target ∈ table) (hd : v.ty.Holds d)
    (h : (forKind target.kind).run v target span = .ok converted) :
    ∃ e, Recasts v target d converted e := by
  cases hk : target.kind with
  | uint =>
    rw [hk] at h
    exact toInteger_recasts hv ht (Or.inl hk) hd h
  | int =>
    rw [hk] at h
    exact toInteger_recasts hv ht (Or.inr hk) hd h
  | decimal =>
    rw [hk] at h
    exact toDecimal_recasts hv ht hk hd h
  | bytes =>
    rw [hk] at h
    exact toBytes_recasts hv ht hk hd h

end Procedure

namespace ArithOp

variable {op : ArithOp} {x y : ℚ}

theorem cut_grid (ty : ScalarType) (q : ℚ) : ∃ i : ℤ, cut ty.scale q * 10 ^ ty.scale = i :=
  ⟨_, cut_mul_zpow ty.scale q⟩

theorem shaped_meaning (op : ArithOp) (hty : ty ∈ table) (hx : ty.Shaped (.number x))
    (hy : ty.Shaped (.number y)) : ty.Shaped (.number (op.meaning ty x y)) := by
  obtain ⟨hk, i, hi⟩ := hx
  obtain ⟨_, j, hj⟩ := hy
  refine ⟨hk, ?_⟩
  cases op with
  | add => exact ⟨i + j, by simp only [meaning]; rw [add_mul, hi, hj, Int.cast_add]⟩
  | sub => exact ⟨i - j, by simp only [meaning]; rw [sub_mul, hi, hj, Int.cast_sub]⟩
  | mul =>
    simp only [meaning]
    split_ifs with hd
    · exact cut_grid ty _
    · rw [scale_eq_zero ty hty hd, zpow_zero, mul_one] at hi hj ⊢
      exact ⟨i * j, by rw [hi, hj, Int.cast_mul]⟩
  | div => exact cut_grid ty _

theorem holds_fold (hty : ty ∈ table) {p q r : Payload} (hp : p.datum = .number x)
    (hq : q.datum = .number y) (hx : ty.Holds (.number x)) (hy : ty.Holds (.number y))
    (hr : op.fold ty p q = .ok r) (hc : ty.layoutBounds.contains r = true) :
    r.datum = .number (op.meaning ty x y) ∧ ty.Holds (.number (op.meaning ty x y)) := by
  have hdatum := fold_exact hty hp hq hx hy hr
  have hrange := (contains_of_number hty hdatum).mp hc
  exact ⟨hdatum, shaped_meaning op hty hx.1 hy.1, _, rfl, hrange⟩

end ArithOp

end ContractGuard
