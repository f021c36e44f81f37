import ContractGuard.Proofs.Arithmetic.Defined
import ContractGuard.Proofs.Lowering.Growth
import ContractGuard.Proofs.Semantics.Checked

/-!
# Where a lowering can fail

A lowering is partial in many places: a payload of the wrong kind has no reading, a number
that is too large has no quantized form, a number does not fit into any number of bytes, and
an integer of too many digits cannot be shown in a message. None of these is ever met. As long
as every type comes from the table and every literal can be written, the check before such a
step lets through only what the step accepts, so whatever fails blames the source.
-/

namespace ContractGuard

open ScalarType

variable {α β : Type} {ty target : ScalarType} {p : Payload} {v w : TypedValue} {span : Span}
  {cause : Cause} {b b' : Buffer}

/-- A failure is a fault of the source. -/
def Blames (x : Except Fault α) : Prop := ∀ e, x = .error e → ∃ fault, e = .source fault

theorem blames_ok (a : α) : Blames (.ok a) := by
  intro e h
  cases h

theorem blames_of_defined {x : Except Fault α} (h : ∃ a, x = .ok a) : Blames x := by
  obtain ⟨a, rfl⟩ := h
  exact blames_ok a

theorem blames_blame (span : Span) (hcause : cause.Worded) :
    Blames (Fault.blame span cause (α := α)) := by
  intro e h
  rw [Fault.blame_of_worded hcause] at h
  exact ⟨_, (Except.error.inj h).symm⟩

theorem blames_require (holds : Bool) (span : Span) (hcause : cause.Worded) :
    Blames (Fault.require holds span cause) := by
  cases holds with
  | true => exact blames_ok ()
  | false => exact blames_blame span hcause

theorem Blames.bind {x : Except Fault α} {f : α → Except Fault β} (hx : Blames x)
    (hf : ∀ a, x = .ok a → Blames (f a)) : Blames (x >>= f) := by
  cases x with
  | ok a => exact hf a rfl
  | error e =>
    intro e' h
    obtain rfl : e = e' := Except.error.inj h
    exact hx e rfl

namespace Emit

def Blames (x : Emit α) : Prop := ∀ b, ContractGuard.Blames (x.run b).1

theorem blames_pure (a : α) : Blames (pure a) := fun _ => blames_ok a

theorem blames_ofExcept {x : Except Fault α} (h : ContractGuard.Blames x) : Blames (ofExcept x) :=
  fun _ => h

theorem blames_newValue : Blames newValue := fun b => blames_ok b.fresh

theorem blames_node (n : Node) : Blames (node n) := fun _ => blames_ok ()

theorem blames_get : Blames (get : Emit Buffer) := fun b => blames_ok b

theorem Blames.bind {x : Emit α} {f : α → Emit β} (hx : Blames x)
    (hf : ∀ a b b', x.Yields b a b' → Blames (f a)) : Blames (x >>= f) := by
  intro b
  have hxb := hx b
  change ContractGuard.Blames ((ExceptT.bindCont f (x.run b).1).run (x.run b).2).1
  rcases h : x.run b with ⟨e | a, b₁⟩
  · rw [h] at hxb
    intro e' he
    obtain rfl : e = e' := Except.error.inj he
    exact hxb e rfl
  · exact hf a b b₁ h b₁

theorem blames_materialize (v : TypedValue) : Blames (materialize v) := by
  simp only [materialize]
  cases v.operand with
  | some id => exact blames_pure id
  | none =>
    exact blames_newValue.bind fun _ _ _ _ => (blames_node _).bind fun _ _ _ _ => blames_pure _

theorem blames_clamp (h : ty ∈ table) (src : ValueId) : Blames (clamp src ty) := by
  have hbounds := blames_of_defined ⟨_, bounds_eq h⟩
  exact (blames_ofExcept hbounds).bind fun _ _ _ _ =>
    blames_newValue.bind fun _ _ _ _ => (blames_node _).bind fun _ _ _ _ => blames_pure _

end Emit

namespace ScalarType

theorem magnitude_lt_of_inRange {x : Scaled} (h : fixed.InRange x.val) :
    x.magnitude < 10 ^ (77 : ℤ) := by
  have hscale : (1 : ℚ) ≤ 10 ^ fixed.scale := by norm_num [fixed]
  have hbound : |x.val * 10 ^ fixed.scale| ≤ 2 ^ 127 := by
    obtain ⟨hlow, hhigh⟩ := h
    have hlowest : fixed.lowest = -2 ^ 127 := rfl
    have hhighest : fixed.highest = 2 ^ 127 - 1 := rfl
    rw [hlowest] at hlow
    rw [hhighest] at hhigh
    push_cast at hlow hhigh
    rw [abs_le]
    constructor <;> linarith
  calc x.magnitude = |x.val| := x.abs_val.symm
    _ ≤ |x.val| * 10 ^ fixed.scale := le_mul_of_one_le_right (abs_nonneg _) hscale
    _ = |x.val * 10 ^ fixed.scale| := by rw [abs_mul, abs_of_pos (zpow_ten_pos _)]
    _ ≤ 2 ^ 127 := hbound
    _ < 10 ^ (77 : ℤ) := by norm_num

theorem onGrid_defined {x : Scaled} (h : fixed.InRange x.val) : ∃ r, fixed.onGrid x = .ok r := by
  obtain ⟨moved, hmoved⟩ := Context.quantizeFinite_wide .halfEven (magnitude_lt_of_inRange h)
  refine ⟨x.same moved, ?_⟩
  simp only [onGrid]
  rw [placeOf_fixed]
  change Context.wide.quantizeFinite .halfEven x (-18) >>= _ = _
  rw [hmoved]
  rfl

theorem literalInRange_defined (h : ty ∈ table) (p : Payload) :
    ∃ r, ty.literalInRange p = .ok r := by
  simp only [literalInRange, bounds_eq h, bind, Except.bind, pure, Except.pure]
  split
  · exact ⟨_, rfl⟩
  · exact ⟨_, rfl⟩
  · next value hk =>
    obtain rfl := eq_fixed ty h hk
    split
    · next x hx =>
      split_ifs with hc
      · obtain ⟨r, hr⟩ := onGrid_defined ((contains_iff h hx).mp hc)
        exact ⟨r, by rw [hr]; rfl⟩
      · exact ⟨_, rfl⟩
    · exact ⟨_, rfl⟩
  · exact ⟨_, rfl⟩
  · exact ⟨_, rfl⟩

end ScalarType

theorem blames_requireLegal (h : ty ∈ table) (p : Payload) (span : Span)
    (hcause : cause.Worded) : Blames (requireLegal ty p span cause) :=
  (blames_of_defined (literalInRange_defined h p)).bind fun _ _ => blames_require _ _ hcause

theorem blames_requireInBounds (h : ty ∈ table) (p : Payload) (span : Span)
    (hcause : cause.Worded) : Blames (requireInBounds ty p span cause) :=
  (blames_of_defined ⟨_, bounds_eq h⟩).bind fun _ _ => blames_require _ _ hcause

/-- Of a type of the table, and with a payload that a message can show. -/
structure TypedValue.Known (v : TypedValue) : Prop where
  typed : v.ty ∈ table
  shown : v.value.HasText

theorem TypedValue.known_runtime (h : ty ∈ table) (id : ValueId) : (runtime ty id).Known :=
  ⟨h, trivial⟩

theorem TypedValue.Known.worded (h : v.Known) (typeName : String) :
    (Cause.literalOutOfRange v.value typeName).Worded :=
  (Cause.worded_of_shown rfl).mpr h.shown

theorem TypedValue.blames_requireLegal (h : v.Known) (span : Span) :
    Blames (v.requireLegal span) := by
  simp only [TypedValue.requireLegal]
  split_ifs
  · exact ContractGuard.blames_requireLegal h.typed _ _ (h.worded _)
  · exact blames_ok ()

theorem TypedValue.Legal.holds (h : v.Legal) (hty : v.ty ∈ table) (hl : v.isLiteral = true) :
    v.ty.Holds v.value.datum := holds_of_literalInRange hty (h hl)

namespace Procedure

theorem blames_refuse (source target : ScalarType) (why : String) (span : Span) :
    Blames (refuse source target why span) := blames_blame _ (Cause.worded_of_none rfl)

theorem blames_ifLiteral {payload : Except Fault Payload}
    (h : v.isLiteral = true → Blames payload) : Blames (ifLiteral v payload) := by
  simp only [ifLiteral]
  split_ifs with hl
  · exact h hl
  · exact blames_ok _

theorem blames_wholePart (source target : ScalarType) (x : Scaled) (span : Span) :
    Blames (wholePart source target (.finite x) span) := by
  simp only [wholePart]
  split_ifs
  · exact blames_refuse _ _ _ _
  · exact blames_ok _

theorem blames_unsignedBytes {length n : ℤ} (hlength : 0 ≤ length) (hn : 0 ≤ n)
    (hlt : n.toNat < BigEndian.count length.toNat) : Blames (unsignedBytes length n) := by
  simp only [unsignedBytes]
  rw [if_neg (by omega), if_neg (by omega), if_neg (by omega)]
  exact blames_ok _

theorem blames_toInteger (hv : v.ty ∈ table) (hl : v.Legal) (target : ScalarType) (span : Span) :
    Blames (toInteger.run v target span) := by
  simp only [toInteger]
  cases hk : v.ty.kind with
  | uint | int =>
    exact (blames_ifLiteral fun _ => blames_ok _).bind fun _ _ => blames_ok _
  | decimal =>
    dsimp only
    split_ifs with hlit
    · obtain ⟨q, hq⟩ := number_of_holds (by simp [hk]) (hl.holds hv hlit)
      obtain ⟨x, hx, -⟩ := Payload.toDecimal_of_datum hq
      rw [hx]
      exact blames_wholePart _ _ _ _
    · exact blames_ok _
  | bytes =>
    dsimp only
    by_cases hbits : v.ty.bits ≠ target.bits
    · rw [if_pos hbits]
      exact blames_refuse _ _ _ _
    · rw [if_neg hbits]
      refine (blames_ifLiteral fun hlit => ?_).bind fun _ _ => blames_ok _
      obtain ⟨bs, hbs, -⟩ := bytes_of_holds hk (hl.holds hv hlit)
      rw [Payload.eq_bytes_of_datum hbs]
      exact blames_ok _

theorem blames_toDecimal (hv : v.ty ∈ table) (hl : v.Legal) (target : ScalarType) (span : Span) :
    Blames (toDecimal.run v target span) := by
  simp only [toDecimal]
  cases hk : v.ty.kind with
  | decimal => exact (blames_ifLiteral fun _ => blames_ok _).bind fun _ _ => blames_ok _
  | uint | int =>
    refine (blames_ifLiteral fun hlit => ?_).bind fun _ _ => blames_ok _
    obtain ⟨q, hq⟩ := number_of_holds (by simp [hk]) (hl.holds hv hlit)
    obtain ⟨x, hx, -⟩ := Payload.toDecimal_of_datum hq
    rw [hx]
    exact blames_ok _
  | bytes => exact blames_refuse _ _ _ _

theorem blames_toBytes (hv : v.ty ∈ table) (hl : v.Legal) (ht : target ∈ table)
    (hk : target.kind = .bytes) (span : Span) : Blames (toBytes.run v target span) := by
  simp only [toBytes]
  cases hs : v.ty.kind with
  | bytes =>
    dsimp only
    split_ifs
    · rw [refuseLength_eq hv ht]
      exact blames_refuse _ _ _ _
    · exact (blames_ifLiteral fun _ => blames_ok _).bind fun _ _ => blames_ok _
  | uint =>
    dsimp only
    split_ifs with hbits
    · exact blames_refuse _ _ _ _
    · refine (blames_ifLiteral fun hlit => ?_).bind fun _ _ => blames_ok _
      have hholds := hl.holds hv hlit
      obtain ⟨n, hn⟩ := whole_of_holds hv (.inl hs) hholds
      rw [hn] at hholds
      obtain ⟨hnonneg, hlt⟩ := toNat_lt_count hv ht hs hk (not_not.mp hbits) hholds
      rw [Payload.toInt_of_datum hn, whole_intCast]
      exact (blames_unsignedBytes (byteLength_nonneg target ht) hnonneg hlt).bind
        fun _ _ => blames_ok _
  | int | decimal => exact blames_refuse _ _ _ _

theorem blames_forKind (hv : v.ty ∈ table) (hl : v.Legal) (ht : target ∈ table) (span : Span) :
    Blames ((forKind target.kind).run v target span) := by
  cases hk : target.kind with
  | uint | int => exact blames_toInteger hv hl target span
  | decimal => exact blames_toDecimal hv hl target span
  | bytes => exact blames_toBytes hv hl ht hk span

end Procedure

namespace ConversionEntry

variable {entry : ConversionEntry} {converted : Converted}

theorem blames_plan (hv : v.Known) (ht : entry.target ∈ table)
    (hp : entry.procedure = Procedure.forKind entry.target.kind) (span : Span) :
    Blames (entry.plan v span) := by
  have hsource : Blames (entry.requireSource v span) := by
    simp only [requireSource]
    split_ifs
    · exact blames_requireInBounds ht _ _ (hv.worded _)
    · exact blames_ok ()
  have hresult : ∀ converted, Blames (entry.requireResult v converted span) := by
    intro converted
    simp only [requireResult]
    split_ifs
    · exact blames_requireLegal ht _ _ (hv.worded _)
    · exact blames_ok ()
  refine (TypedValue.blames_requireLegal hv span).bind fun _ hlegal => ?_
  have hl := TypedValue.requireLegal_eq_ok.mp hlegal
  refine hsource.bind fun _ _ => Blames.bind ?_ fun converted _ => ?_
  · rw [hp]
    exact Procedure.blames_forKind hv.typed hl ht span
  · exact (hresult converted).bind fun _ _ => blames_ok _

theorem blames_emit (ht : entry.target ∈ table) (v : TypedValue) (converted : Converted) :
    (entry.emit v converted).Blames := by
  have hclamp : ∀ src, Emit.Blames (do
      let dest ← Emit.clamp src entry.target
      if v.isLiteral then return ⟨entry.target, converted.literal, true, some dest⟩
      else return .runtime entry.target dest : Emit TypedValue) := by
    intro src
    refine (Emit.blames_clamp ht src).bind fun dest _ _ _ => ?_
    split_ifs <;> exact Emit.blames_pure _
  refine (Emit.blames_materialize v).bind fun held _ _ _ => ?_
  by_cases hty : v.ty = entry.target
  · simp only [if_pos hty]
    exact (Emit.blames_pure held).bind fun src _ _ _ => hclamp src
  · simp only [if_neg hty]
    refine Emit.blames_newValue.bind fun dest _ _ _ => (Emit.blames_node _).bind fun _ _ _ _ => ?_
    exact (Emit.blames_pure dest).bind fun src _ _ _ => hclamp src

theorem Planned.known_result (h : entry.Planned v span converted) (ht : entry.target ∈ table)
    (dest : ValueId) : (entry.result v converted dest).Known := by
  simp only [ConversionEntry.result]
  split_ifs with hl
  · exact ⟨ht, Payload.hasText_of_holds ht (holds_of_literalInRange ht (h.result hl))⟩
  · exact TypedValue.known_runtime ht dest

theorem Emits.known (h : entry.Emits v converted b w b') (hp : entry.Planned v span converted)
    (ht : entry.target ∈ table) : w.Known := by
  cases h with
  | same _ _ _ | changed _ _ _ => exact hp.known_result ht _

end ConversionEntry

namespace Registry

theorem blames_resolve (target : String) (span : Span) :
    Blames (Registry.default.resolve target span) := by
  simp only [Registry.default, resolve]
  split
  · exact blames_ok _
  · exact blames_blame _ (Cause.worded_of_none rfl)

theorem target_mem {entry : ConversionEntry} {target : String}
    (h : Registry.default.resolve target span = .ok entry) : entry.target ∈ table :=
  (find?_eq_some (resolve_default h).1).1

theorem blames_convert (hv : v.Known) (target : String) (span : Span) :
    (Registry.default.convert v target span).Blames := by
  refine (Emit.blames_ofExcept (blames_resolve target span)).bind fun entry _ _ hy => ?_
  obtain ⟨hentry, -⟩ := Emit.ofExcept_yields.mp hy
  have ht := target_mem hentry
  refine (Emit.blames_ofExcept ?_).bind fun _ _ _ _ => ConversionEntry.blames_emit ht _ _
  exact ConversionEntry.blames_plan hv ht (resolve_default hentry).2 span

theorem convert_known {target : String}
    (h : (Registry.default.convert v target span).Yields b w b') : w.Known := by
  obtain ⟨entry, converted, hentry, hp, he⟩ := convert_yields.mp h
  exact he.known hp (target_mem hentry)

end Registry

namespace ArithOp

variable {op : ArithOp} {folded : Option Payload}

theorem blames_foldInRange (hv : v.ty ∈ table) (hw : v.ty = w.ty) (hnum : v.ty.isNumeric = true)
    (hl : v.Legal) (hr : w.Legal)
    (hzero : op = .div → w.isLiteral = true → w.value.isZero = false) (span : Span) :
    Blames (op.foldInRange v w span) := by
  simp only [foldInRange]
  split_ifs with hlit
  · obtain ⟨hvlit, hwlit⟩ := Bool.and_eq_true_iff.mp hlit
    have hk := isNumeric_iff.mp hnum
    have hx := hl.holds hv hvlit
    have hy := hr.holds (hw ▸ hv) hwlit
    rw [← hw] at hy
    obtain ⟨x, hxd⟩ := number_of_holds hk hx
    obtain ⟨y, hyd⟩ := number_of_holds hk hy
    have hdivisor : ¬ (op = .div ∧ y = 0) := by
      rintro ⟨hop, hy0⟩
      have := hzero hop hwlit
      simp [(Payload.isZero_iff hyd).mpr hy0] at this
    rw [hxd] at hx
    rw [hyd] at hy
    refine (blames_of_defined (fold_defined hv hxd hyd hx hy hdivisor)).bind fun r hr => ?_
    have htext := hasText_fold hv hxd hyd hx hy hr
    exact (blames_requireInBounds hv _ _ ((Cause.worded_of_shown rfl).mpr htext)).bind
      fun _ _ => blames_ok _
  · exact blames_ok _

theorem blames_plan (hv : v.Known) (hw : w.Known) (op : ArithOp) (span : Span) :
    Blames (op.plan v w span) := by
  simp only [plan]
  refine (blames_require _ _ (Cause.worded_of_none rfl)).bind fun _ hty => ?_
  refine (blames_require _ _ (Cause.worded_of_none rfl)).bind fun _ hnum => ?_
  refine (TypedValue.blames_requireLegal hv span).bind fun _ hl => ?_
  refine (TypedValue.blames_requireLegal hw span).bind fun _ hr => ?_
  refine (blames_require _ _ (Cause.worded_of_none rfl)).bind fun _ hzero => ?_
  refine blames_foldInRange hv.typed ?_ (Fault.require_eq_ok.mp hnum)
    (TypedValue.requireLegal_eq_ok.mp hl) (TypedValue.requireLegal_eq_ok.mp hr) ?_ span
  · simpa using hty
  · intro hop hlit
    simpa [hop, hlit] using hzero

theorem blames_emit (hv : v.ty ∈ table) (op : ArithOp) (w : TypedValue) (folded : Option Payload) :
    (op.emit v w folded).Blames := by
  have hraw : ∀ lhs rhs, Emit.Blames (do
      let raw ← Emit.newValue
      Emit.node (.binary raw op lhs rhs v.ty)
      let dest ← Emit.clamp raw v.ty
      return result v.ty folded dest) := by
    intro lhs rhs
    refine Emit.blames_newValue.bind fun raw _ _ _ => (Emit.blames_node _).bind fun _ _ _ _ => ?_
    exact (Emit.blames_clamp hv raw).bind fun _ _ _ _ => Emit.blames_pure _
  rw [emit_eq]
  refine (Emit.blames_materialize v).bind fun lhs _ _ _ => ?_
  refine (Emit.blames_materialize w).bind fun rhs _ _ _ => ?_
  dsimp only
  split_ifs
  · exact (Emit.blames_node _).bind fun _ _ _ _ => hraw lhs rhs
  · exact hraw lhs rhs

theorem Emits.ty_eq (h : op.Emits v w folded b u b') : u.ty = v.ty := by
  obtain ⟨-, -, -⟩ := h
  cases folded <;> rfl

theorem Planned.known_result (h : op.Planned v w folded) (hv : v.ty ∈ table) (dest : ValueId) :
    (result v.ty folded dest).Known := by
  have hfolded := h.folded
  split_ifs at hfolded with hlit
  · obtain ⟨p, rfl, -, range, hrange, hcontains⟩ := hfolded
    obtain rfl := layoutBounds_eq hv hrange
    exact ⟨hv, hasText_of_contains hv hcontains⟩
  · rw [hfolded]
    exact TypedValue.known_runtime hv dest

theorem Emits.known (h : op.Emits v w folded b u b') (hp : op.Planned v w folded)
    (hv : v.ty ∈ table) : u.Known := by
  obtain ⟨-, -, -⟩ := h
  exact hp.known_result hv _

end ArithOp

theorem blames_guard (hv : v.Known) (hw : w.Known) (op : ArithOp) (span : Span) :
    (guard (.known op) v w span).Blames := by
  refine (Emit.blames_ofExcept (blames_ok op)).bind fun op _ _ _ => ?_
  exact (Emit.blames_ofExcept (ArithOp.blames_plan hv hw op span)).bind fun _ _ _ _ =>
    ArithOp.blames_emit hv.typed op w _

end ContractGuard
