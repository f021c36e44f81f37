import ContractGuard.Proofs.Lowering.Steps
import ContractGuard.Proofs.Semantics.Checked
import ContractGuard.Proofs.Syntax.Spans

/-!
# Lowering a declaration elsewhere

No step of the lowering looks at a span: it only hands one to the fault that it may raise.
So a declaration whose spans are replaced lowers to the same code, or fails with the same
fault at the replaced span. A procedure could look at its span, but those of the default
registry do not.
-/

namespace ContractGuard

def Fault.mapSpan (f : Span → Span) : Fault → Fault
  | source e => source ⟨e.cause, f e.span⟩
  | configuration e => configuration e
  | signal s => signal s
  | misuse m => misuse m

variable {α β : Type} {f : Span → Span}

/-- The second computation is the first with other spans. -/
def Relocates (f : Span → Span) (x y : Except Fault α) : Prop :=
  y = x.mapError (Fault.mapSpan f)

theorem relocates_ok (a : α) : Relocates f (.ok a) (.ok a) := rfl

theorem relocates_misuse (m : Misuse) :
    Relocates f (.error (.misuse m) : Except Fault α) (.error (.misuse m)) := rfl

theorem relocates_blame (span : Span) (cause : Cause) :
    Relocates f (Fault.blame span cause (α := α)) (Fault.blame (f span) cause) := by
  simp only [Fault.blame]
  split <;> rfl

theorem relocates_require (holds : Bool) (span : Span) (cause : Cause) :
    Relocates f (Fault.require holds span cause) (Fault.require holds (f span) cause) := by
  cases holds with
  | true => exact relocates_ok ()
  | false => exact relocates_blame _ _

theorem relocates_ofSignal (x : Except Signal α) :
    Relocates f (Fault.ofSignal x) (Fault.ofSignal x) := by
  cases x <;> rfl

theorem Relocates.bind {x y : Except Fault α} {g h : α → Except Fault β} (hx : Relocates f x y)
    (hg : ∀ a, Relocates f (g a) (h a)) : Relocates f (x >>= g) (y >>= h) := by
  obtain rfl := hx
  cases x with
  | ok a => exact hg a
  | error e => rfl

namespace Emit

def Relocates (f : Span → Span) (x y : Emit α) : Prop :=
  ∀ b, y.run b = ((x.run b).1.mapError (Fault.mapSpan f), (x.run b).2)

theorem relocates_pure (a : α) : Relocates f (pure a) (pure a) := fun _ => rfl

theorem relocates_ofExcept {x y : Except Fault α} (h : ContractGuard.Relocates f x y) :
    Relocates f (ofExcept x) (ofExcept y) := by
  obtain rfl := h
  exact fun _ => rfl

theorem relocates_misuse (m : Misuse) :
    Relocates f (throw (.misuse m) : Emit α) (throw (.misuse m)) := fun _ => rfl

theorem relocates_newValue : Relocates f newValue newValue := fun _ => rfl

theorem relocates_node (n : Node) : Relocates f (node n) (node n) := fun _ => rfl

theorem relocates_get : Relocates f (get : Emit Buffer) get := fun _ => rfl

theorem Relocates.bind {x y : Emit α} {g h : α → Emit β} (hx : Relocates f x y)
    (hg : ∀ a, Relocates f (g a) (h a)) : Relocates f (x >>= g) (y >>= h) := by
  intro b
  have hxb := hx b
  change (ExceptT.bindCont h (y.run b).1).run (y.run b).2 = _
  rw [hxb]
  change _ = (((ExceptT.bindCont g (x.run b).1).run (x.run b).2).1.mapError _,
    ((ExceptT.bindCont g (x.run b).1).run (x.run b).2).2)
  rcases x.run b with ⟨e | a, b₁⟩
  · rfl
  · exact hg a b₁

theorem relocates_foldlM {γ : Type} {step : β → α → Emit β} {step' : β → γ → Emit β} {m : α → γ}
    (h : ∀ s a, Relocates f (step s a) (step' s (m a))) (xs : List α) (s : β) :
    Relocates f (xs.foldlM step s) ((xs.map m).foldlM step' s) := by
  induction xs generalizing s with
  | nil => exact relocates_pure s
  | cons a xs ih =>
    rw [List.map_cons, List.foldlM_cons, List.foldlM_cons]
    exact (h s a).bind fun s' => ih s'

theorem relocates_materialize (v : TypedValue) : Relocates f (materialize v) (materialize v) := by
  simp only [materialize]
  cases v.operand with
  | some id => exact relocates_pure id
  | none =>
    exact relocates_newValue.bind fun _ => (relocates_node _).bind fun _ => relocates_pure _

end Emit

namespace ScalarType

theorem relocates_bounds (ty : ScalarType) : Relocates f ty.bounds ty.bounds := by
  simp only [bounds, boundsOf, named]
  split <;> rfl

theorem relocates_literalInRange (ty : ScalarType) (p : Payload) :
    Relocates f (ty.literalInRange p) (ty.literalInRange p) := by
  refine (relocates_bounds ty).bind fun range => ?_
  split
  · exact relocates_ok _
  · exact relocates_ok _
  · split
    · split
      · exact relocates_ofSignal _
      · exact relocates_ok _
    · exact relocates_ok _
  · exact relocates_ok _
  · exact relocates_ok _

end ScalarType

theorem Emit.relocates_clamp (src : ValueId) (ty : ScalarType) :
    Relocates f (clamp src ty) (clamp src ty) :=
  (relocates_ofExcept ty.relocates_bounds).bind fun _ =>
    relocates_newValue.bind fun _ => (relocates_node _).bind fun _ => relocates_pure _

theorem relocates_requireLegal (ty : ScalarType) (p : Payload) (span : Span) (cause : Cause) :
    Relocates f (requireLegal ty p span cause) (requireLegal ty p (f span) cause) :=
  (ty.relocates_literalInRange p).bind fun _ => relocates_require _ _ _

theorem relocates_requireInBounds (ty : ScalarType) (p : Payload) (span : Span) (cause : Cause) :
    Relocates f (requireInBounds ty p span cause) (requireInBounds ty p (f span) cause) :=
  ty.relocates_bounds.bind fun _ => relocates_require _ _ _

theorem TypedValue.relocates_requireLegal (v : TypedValue) (span : Span) :
    Relocates f (v.requireLegal span) (v.requireLegal (f span)) := by
  simp only [TypedValue.requireLegal]
  split
  · exact ContractGuard.relocates_requireLegal _ _ _ _
  · exact relocates_ok ()

theorem Payload.relocates_toDecimal (p : Payload) : Relocates f p.toDecimal p.toDecimal := by
  simp only [toDecimal]
  repeat' split
  all_goals rfl

theorem Payload.relocates_readInt (shown : String) (cs : List Char) :
    Relocates f (readInt shown cs) (readInt shown cs) := by
  simp only [readInt]
  repeat' split
  all_goals rfl

theorem Payload.relocates_toInt (p : Payload) : Relocates f p.toInt p.toInt := by
  cases p with
  | text _ | bytes _ => exact relocates_readInt _ _
  | decimal d => cases d <;> rfl
  | null | int _ | bool _ => rfl

theorem Payload.relocates_toBytes (p : Payload) : Relocates f p.toBytes p.toBytes := by
  simp only [toBytes]
  repeat' split
  all_goals rfl

namespace Procedure

theorem relocates_refuse (source target : ScalarType) (why : String) (span : Span) :
    Relocates f (refuse source target why span) (refuse source target why (f span)) :=
  relocates_blame _ _

theorem relocates_refuseLength (source target : ScalarType) (span : Span) :
    Relocates f (refuseLength source target span) (refuseLength source target (f span)) := by
  simp only [refuseLength]
  split
  · exact relocates_refuse _ _ _ _
  · rfl

theorem relocates_ifLiteral {payload : Except Fault Payload} (v : TypedValue)
    (h : Relocates f payload payload) :
    Relocates f (ifLiteral v payload) (ifLiteral v payload) := by
  simp only [ifLiteral]
  split
  · exact h
  · exact relocates_ok _

theorem relocates_wholePart (source target : ScalarType) (d : Decimal) (span : Span) :
    Relocates f (wholePart source target d span) (wholePart source target d (f span)) := by
  simp only [wholePart]
  split
  · split
    · exact relocates_refuse _ _ _ _
    · exact relocates_ok _
  · exact relocates_misuse _
  · rfl
  · exact relocates_refuse _ _ _ _

theorem relocates_unsignedBytes (length n : Int) :
    Relocates f (unsignedBytes length n) (unsignedBytes length n) := by
  simp only [unsignedBytes]
  repeat' split
  all_goals rfl

theorem relocates_toInteger (v : TypedValue) (target : ScalarType) (span : Span) :
    Relocates f (toInteger.run v target span) (toInteger.run v target (f span)) := by
  simp only [toInteger]
  cases v.ty.kind with
  | uint | int => exact (relocates_ifLiteral v (relocates_ok _)).bind fun _ => relocates_ok _
  | decimal =>
    dsimp only
    split
    · exact v.value.relocates_toDecimal.bind fun d => relocates_wholePart _ _ d _
    · exact relocates_ok _
  | bytes =>
    dsimp only
    split
    · exact relocates_refuse _ _ _ _
    · refine (relocates_ifLiteral v ?_).bind fun _ => relocates_ok _
      exact v.value.relocates_toBytes.bind fun _ => relocates_ok _

theorem relocates_toDecimal (v : TypedValue) (target : ScalarType) (span : Span) :
    Relocates f (toDecimal.run v target span) (toDecimal.run v target (f span)) := by
  simp only [toDecimal]
  cases v.ty.kind with
  | decimal => exact (relocates_ifLiteral v (relocates_ok _)).bind fun _ => relocates_ok _
  | uint | int =>
    refine (relocates_ifLiteral v ?_).bind fun _ => relocates_ok _
    exact v.value.relocates_toDecimal.bind fun _ => relocates_ok _
  | bytes => exact relocates_refuse _ _ _ _

theorem relocates_toBytes (v : TypedValue) (target : ScalarType) (span : Span) :
    Relocates f (toBytes.run v target span) (toBytes.run v target (f span)) := by
  simp only [toBytes]
  cases v.ty.kind with
  | bytes =>
    dsimp only
    split
    · exact relocates_refuseLength _ _ _
    · exact (relocates_ifLiteral v (relocates_ok _)).bind fun _ => relocates_ok _
  | uint =>
    dsimp only
    split
    · exact relocates_refuse _ _ _ _
    · refine (relocates_ifLiteral v ?_).bind fun _ => relocates_ok _
      exact v.value.relocates_toInt.bind fun n =>
        (relocates_unsignedBytes _ n).bind fun _ => relocates_ok _
  | int | decimal => exact relocates_refuse _ _ _ _

theorem relocates_forKind (kind : ScalarKind) (v : TypedValue) (target : ScalarType)
    (span : Span) :
    Relocates f ((forKind kind).run v target span) ((forKind kind).run v target (f span)) := by
  cases kind with
  | uint | int => exact relocates_toInteger v target span
  | decimal => exact relocates_toDecimal v target span
  | bytes => exact relocates_toBytes v target span

end Procedure

namespace ConversionEntry

variable {entry : ConversionEntry} {kind : ScalarKind}

theorem relocates_plan (h : entry.procedure = Procedure.forKind kind) (v : TypedValue)
    (span : Span) : Relocates f (entry.plan v span) (entry.plan v (f span)) := by
  have hsource : Relocates f (entry.requireSource v span) (entry.requireSource v (f span)) := by
    simp only [requireSource]
    split
    · exact relocates_requireInBounds _ _ _ _
    · exact relocates_ok ()
  have hresult : ∀ converted,
      Relocates f (entry.requireResult v converted span)
        (entry.requireResult v converted (f span)) := by
    intro converted
    simp only [requireResult]
    split
    · exact relocates_requireLegal _ _ _ _
    · exact relocates_ok ()
  refine (v.relocates_requireLegal span).bind fun _ => hsource.bind fun _ => Relocates.bind ?_ ?_
  · rw [h]
    exact Procedure.relocates_forKind kind v entry.target span
  · exact fun converted => (hresult converted).bind fun _ => relocates_ok _

theorem relocates_emit (entry : ConversionEntry) (v : TypedValue) (converted : Converted) :
    Emit.Relocates f (entry.emit v converted) (entry.emit v converted) := by
  have hclamp : ∀ src,
      let clamped : Emit TypedValue := do
        let dest ← Emit.clamp src entry.target
        if v.isLiteral then return ⟨entry.target, converted.literal, true, some dest⟩
        else return .runtime entry.target dest
      Emit.Relocates f clamped clamped := by
    intro src
    refine (Emit.relocates_clamp src entry.target).bind fun dest => ?_
    split <;> exact Emit.relocates_pure _
  refine (Emit.relocates_materialize v).bind fun held => ?_
  by_cases hty : v.ty = entry.target
  · simp only [if_pos hty]
    exact (Emit.relocates_pure held).bind hclamp
  · simp only [if_neg hty]
    refine Emit.relocates_newValue.bind fun dest => (Emit.relocates_node _).bind fun _ => ?_
    exact (Emit.relocates_pure dest).bind hclamp

end ConversionEntry

namespace Registry

theorem relocates_resolve (r : Registry) (target : String) (span : Span) :
    Relocates f (r.resolve target span) (r.resolve target (f span)) := by
  cases r with
  | opened pending => rfl
  | closed entries =>
    simp only [resolve]
    split
    · exact relocates_ok _
    · exact relocates_blame _ _

theorem relocates_convert (v : TypedValue) (target : String) (span : Span) :
    Emit.Relocates f (Registry.default.convert v target span)
      (Registry.default.convert v target (f span)) := by
  -- The entry has to come from the registry, so its look-up is split by hand.
  have hresolve := Registry.default.relocates_resolve (f := f) target span
  simp only [convert]
  rw [hresolve]
  cases h : Registry.default.resolve target span with
  | error e => exact fun _ => rfl
  | ok entry =>
    obtain ⟨-, hprocedure⟩ := resolve_default h
    exact (Emit.relocates_ofExcept (entry.relocates_plan hprocedure v span)).bind
      (entry.relocates_emit v)

end Registry

namespace ArithOp

theorem relocates_fold (op : ArithOp) (ty : ScalarType) (p q : Payload) :
    Relocates f (op.fold ty p q) (op.fold ty p q) := by
  have hdecimal : Relocates f (do
      let x ← p.toDecimal
      let y ← q.toDecimal
      return Payload.decimal (← Fault.ofSignal (op.foldDecimal ty.scale x y))) _ :=
    p.relocates_toDecimal.bind fun x => q.relocates_toDecimal.bind fun y =>
      (relocates_ofSignal _).bind fun _ => relocates_ok _
  have hint : ∀ x y, Relocates f (op.foldInt x y) (op.foldInt x y) := by
    intro x y
    cases op with
    | div =>
      simp only [foldInt]
      split <;> rfl
    | _ => rfl
  simp only [fold]
  split
  · exact hdecimal
  · exact p.relocates_toInt.bind fun x => q.relocates_toInt.bind fun y =>
      (hint x y).bind fun _ => relocates_ok _

theorem relocates_foldInRange (op : ArithOp) (v w : TypedValue) (span : Span) :
    Relocates f (op.foldInRange v w span) (op.foldInRange v w (f span)) := by
  simp only [foldInRange]
  split
  · exact (op.relocates_fold _ _ _).bind fun _ =>
      (relocates_requireInBounds _ _ _ _).bind fun _ => relocates_ok _
  · exact relocates_ok _

theorem relocates_plan (op : ArithOp) (v w : TypedValue) (span : Span) :
    Relocates f (op.plan v w span) (op.plan v w (f span)) := by
  refine (relocates_require _ _ _).bind fun _ => (relocates_require _ _ _).bind fun _ => ?_
  refine (v.relocates_requireLegal span).bind fun _ => ?_
  refine (w.relocates_requireLegal span).bind fun _ => ?_
  exact (relocates_require _ _ _).bind fun _ => op.relocates_foldInRange v w span

theorem relocates_emit (op : ArithOp) (v w : TypedValue) (folded : Option Payload) :
    Emit.Relocates f (op.emit v w folded) (op.emit v w folded) := by
  have hraw : ∀ lhs rhs,
      let operation : Emit TypedValue := do
        let raw ← Emit.newValue
        Emit.node (.binary raw op lhs rhs v.ty)
        let dest ← Emit.clamp raw v.ty
        return result v.ty folded dest
      Emit.Relocates f operation operation := fun lhs rhs =>
    Emit.relocates_newValue.bind fun raw => (Emit.relocates_node _).bind fun _ =>
      (Emit.relocates_clamp raw v.ty).bind fun _ => Emit.relocates_pure _
  rw [emit_eq]
  refine (Emit.relocates_materialize v).bind fun lhs => ?_
  refine (Emit.relocates_materialize w).bind fun rhs => ?_
  dsimp only
  split
  · exact (Emit.relocates_node _).bind fun _ => hraw lhs rhs
  · exact hraw lhs rhs

end ArithOp

theorem relocates_guard (op : OperatorName) (v w : TypedValue) (span : Span) :
    Emit.Relocates f (guard op v w span) (guard op v w (f span)) := by
  have hop : Relocates f op.resolve op.resolve := by
    cases op <;> rfl
  refine (Emit.relocates_ofExcept hop).bind fun op => ?_
  exact (Emit.relocates_ofExcept (op.relocates_plan v w span)).bind (op.relocates_emit v w)

namespace Lowering

theorem relocates_typeNamed (name : String) (span : Span) :
    Relocates f (typeNamed name span) (typeNamed name (f span)) := by
  simp only [typeNamed]
  split
  · exact relocates_ok _
  · exact relocates_blame _ _

theorem relocates_requireNoResult (result : Option ScalarType) (span : Span) :
    Relocates f (requireNoResult result span) (requireNoResult result (f span)) := by
  cases result with
  | none => exact relocates_ok ()
  | some ty => exact relocates_blame span (.typeMismatch "void" ty.name (some "return"))

theorem relocates_requireReturnable (result : Option ScalarType) (v : TypedValue) (span : Span) :
    Relocates f (requireReturnable result v span) (requireReturnable result v (f span)) := by
  have hresult : Relocates f (requireResult result v span) (requireResult result v (f span)) := by
    cases result with
    | none => exact relocates_ok ()
    | some ty => exact relocates_require _ _ _
  refine hresult.bind fun _ => ?_
  split
  · exact v.relocates_requireLegal span
  · exact relocates_ok ()

theorem relocates_expr (locals : Locals) (e : Expr) :
    Emit.Relocates f (expr .default locals e) (expr .default locals (e.mapSpans f)) := by
  induction e with
  | literal value ty span =>
    cases ty with
    | none => exact Emit.relocates_misuse _
    | some ty => exact Emit.relocates_pure _
  | name ident span =>
    simp only [Expr.mapSpans, expr]
    split
    · exact Emit.relocates_pure _
    · exact Emit.relocates_ofExcept (relocates_blame _ _)
  | binary op left right span ihl ihr =>
    exact ihl.bind fun lhs => ihr.bind fun rhs => relocates_guard op lhs rhs span
  | conversion target arg span ih =>
    exact ih.bind fun value => Registry.relocates_convert value target span
  | unsupported span => exact Emit.relocates_misuse _

theorem relocates_stmt (result : Option ScalarType) (locals : Locals) (s : Stmt) :
    Emit.Relocates f (stmt .default result locals s)
      (stmt .default result locals (s.mapSpans f)) := by
  cases s with
  | bind name value span =>
    refine (Emit.relocates_ofExcept (relocates_require _ _ _)).bind fun _ => ?_
    exact (relocates_expr locals value).bind fun _ => Emit.relocates_pure _
  | eval value span =>
    exact (relocates_expr locals value).bind fun _ => Emit.relocates_pure _
  | ret value span =>
    cases value with
    | none =>
      refine (Emit.relocates_ofExcept (relocates_requireNoResult result span)).bind fun _ => ?_
      exact (Emit.relocates_node _).bind fun _ => Emit.relocates_pure _
    | some value =>
      refine (relocates_expr locals value).bind fun v => ?_
      refine (Emit.relocates_ofExcept (relocates_requireReturnable result v span)).bind fun _ => ?_
      refine (Emit.relocates_materialize v).bind fun _ => ?_
      exact (Emit.relocates_node _).bind fun _ => Emit.relocates_pure _
  | unsupported span => exact Emit.relocates_misuse _

theorem relocates_param (locals : Locals) (p : Param) :
    Emit.Relocates f (param locals p) (param locals (p.mapSpans f)) := by
  refine (Emit.relocates_ofExcept (relocates_typeNamed _ _)).bind fun ty => ?_
  refine (Emit.relocates_ofExcept (relocates_require _ _ _)).bind fun _ => ?_
  exact Emit.relocates_newValue.bind fun _ =>
    (Emit.relocates_node _).bind fun _ => Emit.relocates_pure _

theorem relocates_close (result : Option ScalarType) (span : Span) :
    Emit.Relocates f (close result span) (close result (f span)) := by
  refine Emit.relocates_get.bind fun b => ?_
  split
  · exact (Emit.relocates_ofExcept (relocates_requireNoResult result span)).bind
      fun _ => Emit.relocates_node _
  · exact Emit.relocates_pure ()

theorem relocates_resultType (decl : FunctionDecl) :
    Relocates f (resultType decl) (resultType (decl.mapSpans f)) := by
  obtain ⟨name, attributes, params, _ | ty, body, span⟩ := decl
  · exact relocates_ok none
  · exact (relocates_typeNamed ty span).bind fun _ => relocates_ok _

theorem relocates_function (decl : FunctionDecl) :
    Emit.Relocates f (function .default decl) (function .default (decl.mapSpans f)) := by
  refine (Emit.relocates_ofExcept (relocates_resultType decl)).bind fun result => ?_
  refine (Emit.relocates_foldlM relocates_param decl.params []).bind fun locals => ?_
  exact (Emit.relocates_foldlM (relocates_stmt result) decl.body locals).bind
    fun _ => relocates_close result decl.span

end Lowering

theorem FunctionDecl.relocates_lower (decl : FunctionDecl) :
    Relocates f (decl.lower .default) ((decl.mapSpans f).lower .default) := by
  have hrun := Lowering.relocates_function (f := f) decl { name := decl.name }
  simp only [Relocates, lower]
  rw [show (decl.mapSpans f).name = decl.name from rfl, hrun]
  rcases (Lowering.function .default decl).run { name := decl.name } with ⟨_ | _, _⟩ <;> rfl

end ContractGuard
