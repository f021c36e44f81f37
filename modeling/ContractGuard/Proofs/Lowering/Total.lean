import ContractGuard.Proofs.Lowering.Blame
import ContractGuard.Proofs.Syntax.Typed

/-!
# Lowering a typed declaration

Every value that a typed expression lowers to has a type of the table, and so have the
locals that a statement leaves. With this invariant each step of the lowering meets the
conditions under which it can only blame the source, and so does the whole.
-/

namespace ContractGuard

open ScalarType

variable {α β : Type} {result : Option ScalarType} {locals locals' : Locals} {v : TypedValue}
  {b b' : Buffer} {name : String}

/-- Over a list, if each step keeps what the next one needs. -/
theorem Emit.blames_foldlM {step : β → α → Emit β} {good : β → Prop} {xs : List α}
    (hstep : ∀ x ∈ xs, ∀ s, good s →
      (step s x).Blames ∧ ∀ b s' b', (step s x).Yields b s' b' → good s') {s : β} (hs : good s) :
    (xs.foldlM step s).Blames ∧ ∀ b s' b', (xs.foldlM step s).Yields b s' b' → good s' := by
  induction xs generalizing s with
  | nil =>
    refine ⟨blames_pure s, ?_⟩
    intro b s' b' h
    rw [List.foldlM_nil, pure_yields] at h
    exact h.1 ▸ hs
  | cons x xs ih =>
    obtain ⟨hblames, hgood⟩ := hstep x List.mem_cons_self s hs
    have hrest : ∀ {s : β}, good s → _ := ih fun y hy => hstep y (List.mem_cons_of_mem x hy)
    rw [List.foldlM_cons]
    refine ⟨hblames.bind fun s₁ b b₁ h => (hrest (hgood b s₁ b₁ h)).1, ?_⟩
    intro b s' b' h
    obtain ⟨s₁, b₁, h₁, h₂⟩ := bind_yields.mp h
    exact (hrest (hgood b s₁ b₁ h₁)).2 b₁ s' b' h₂

namespace Locals

def Known (locals : Locals) : Prop := ∀ entry ∈ locals, TypedValue.Known entry.2

theorem known_nil : Known [] := by
  intro entry h
  cases h

theorem Known.cons (h : locals.Known) (hv : v.Known) (name : String) :
    Known ((name, v) :: locals) := by
  intro entry hentry
  rcases List.mem_cons.mp hentry with rfl | hentry
  · exact hv
  · exact h entry hentry

theorem Known.lookup (h : locals.Known) (hl : locals.lookup name = some v) : v.Known :=
  h _ (mem_of_lookup hl)

end Locals

namespace Lowering

theorem blames_typeNamed (name : String) (span : Span) : Blames (typeNamed name span) := by
  simp only [typeNamed]
  split
  · exact blames_ok _
  · exact blames_blame _ (Cause.worded_of_none rfl)

theorem blames_requireFresh (locals : Locals) (name : String) (span : Span) :
    Blames (requireFresh locals name span) := blames_require _ _ (Cause.worded_of_none rfl)

theorem blames_requireNoResult (result : Option ScalarType) (span : Span) :
    Blames (requireNoResult result span) := by
  cases result with
  | none => exact blames_ok ()
  | some ty =>
    have hworded : (Cause.typeMismatch "void" ty.name (some "return")).Worded :=
      Cause.worded_of_none rfl
    exact blames_blame span hworded

theorem blames_requireReturnable (hv : v.Known) (result : Option ScalarType) (span : Span) :
    Blames (requireReturnable result v span) := by
  have hresult : Blames (requireResult result v span) := by
    cases result with
    | none => exact blames_ok ()
    | some ty => exact blames_require _ _ (Cause.worded_of_none rfl)
  refine hresult.bind fun _ _ => ?_
  split_ifs
  · exact TypedValue.blames_requireLegal hv span
  · exact blames_ok ()

theorem ExprLowers.known {e : Expr} (h : ExprLowers .default locals e b v b') (he : e.Typed)
    (hl : locals.Known) : v.Known := by
  induction h with
  | literal =>
    obtain ⟨hshown, known, hknown, hty⟩ := he
    obtain rfl := Option.some.inj hty
    exact ⟨hknown, hshown⟩
  | name hlookup => exact hl.lookup hlookup
  | conversion _ hconvert _ => exact Registry.convert_known hconvert
  | binary _ _ hguard ihl _ =>
    obtain ⟨op, folded, -, hplanned, hemits⟩ := guard_yields.mp hguard
    exact hemits.known hplanned (ihl he.2.1).typed

theorem blames_expr {e : Expr} (he : e.Typed) (hl : locals.Known) :
    (expr .default locals e).Blames := by
  induction e with
  | literal value ty span =>
    obtain ⟨-, known, -, rfl⟩ := he
    exact Emit.blames_pure _
  | name ident span =>
    simp only [expr]
    split
    · exact Emit.blames_pure _
    · exact Emit.blames_ofExcept (blames_blame _ (Cause.worded_of_none rfl))
  | binary op left right span ihl ihr =>
    obtain ⟨⟨op, rfl⟩, hleft, hright⟩ := he
    simp only [expr]
    refine (ihl hleft).bind fun lhs _ _ hlhs => (ihr hright).bind fun rhs _ _ hrhs => ?_
    have hlty := (expr_yields.mp hlhs).known hleft hl
    have hrty := (expr_yields.mp hrhs).known hright hl
    exact blames_guard hlty hrty op span
  | conversion target arg span ih =>
    simp only [expr]
    refine (ih he).bind fun value _ _ hvalue => ?_
    exact Registry.blames_convert ((expr_yields.mp hvalue).known he hl) target span
  | unsupported span => exact he.elim

theorem StmtLowers.known {s : Stmt} (h : StmtLowers .default result locals s b locals' b')
    (hs : s.Typed) (hl : locals.Known) : locals'.Known := by
  cases h with
  | bind _ hvalue => exact hl.cons (hvalue.known hs hl) _
  | eval _ | bareReturn _ | valueReturn _ _ _ => exact hl

theorem blames_stmt {s : Stmt} (hs : s.Typed) (hl : locals.Known) :
    (stmt .default result locals s).Blames := by
  cases s with
  | bind name value span =>
    refine (Emit.blames_ofExcept (blames_requireFresh locals name span)).bind fun _ _ _ _ => ?_
    exact (blames_expr hs hl).bind fun _ _ _ _ => Emit.blames_pure _
  | eval value span => exact (blames_expr hs hl).bind fun _ _ _ _ => Emit.blames_pure _
  | ret value span =>
    cases value with
    | none =>
      refine (Emit.blames_ofExcept (blames_requireNoResult result span)).bind fun _ _ _ _ => ?_
      exact (Emit.blames_node _).bind fun _ _ _ _ => Emit.blames_pure _
    | some value =>
      have hvalue : value.Typed := hs value rfl
      refine (blames_expr hvalue hl).bind fun v _ _ hv => ?_
      have hty := (expr_yields.mp hv).known hvalue hl
      refine (Emit.blames_ofExcept (blames_requireReturnable hty result span)).bind
        fun _ _ _ _ => ?_
      refine (Emit.blames_materialize v).bind fun _ _ _ _ => ?_
      exact (Emit.blames_node _).bind fun _ _ _ _ => Emit.blames_pure _
  | unsupported span => exact hs.elim

theorem blames_param (locals : Locals) (p : Param) : (param locals p).Blames := by
  refine (Emit.blames_ofExcept (blames_typeNamed p.typeName p.span)).bind fun ty _ _ _ => ?_
  refine (Emit.blames_ofExcept (blames_requireFresh locals p.name p.span)).bind fun _ _ _ _ => ?_
  exact Emit.blames_newValue.bind fun _ _ _ _ =>
    (Emit.blames_node _).bind fun _ _ _ _ => Emit.blames_pure _

theorem param_known {p : Param} (h : (param locals p).Yields b locals' b') (hl : locals.Known) :
    locals'.Known := by
  simp only [param, Emit.bind_yields, Emit.ofExcept_yields, typeNamed_eq_ok,
    Emit.pure_yields] at h
  obtain ⟨ty, _, ⟨hty, -⟩, _, _, -, _, _, -, _, _, -, rfl, -⟩ := h
  exact hl.cons (TypedValue.known_runtime (find?_eq_some hty).1 _) p.name

theorem blames_close (result : Option ScalarType) (span : Span) : (close result span).Blames := by
  refine Emit.blames_get.bind fun buffer _ _ _ => ?_
  split_ifs
  · exact (Emit.blames_ofExcept (blames_requireNoResult result span)).bind
      fun _ _ _ _ => Emit.blames_node _
  · exact Emit.blames_pure ()

theorem blames_resultType (decl : FunctionDecl) : Blames (resultType decl) := by
  simp only [resultType]
  split
  · exact blames_ok none
  · exact (blames_typeNamed _ _).bind fun _ _ => blames_ok _

theorem blames_function {decl : FunctionDecl} (h : decl.Typed) :
    (function .default decl).Blames := by
  have hparam : ∀ p ∈ decl.params, ∀ locals : Locals, locals.Known →
      (param locals p).Blames ∧
        ∀ b locals' b', (param locals p).Yields b locals' b' → locals'.Known :=
    fun p _ locals hl => ⟨blames_param locals p, fun _ _ _ hy => param_known hy hl⟩
  have hstmt : ∀ result, ∀ s ∈ decl.body, ∀ locals : Locals, locals.Known →
      (stmt .default result locals s).Blames ∧
        ∀ b locals' b', (stmt .default result locals s).Yields b locals' b' → locals'.Known :=
    fun result s hs locals hl => ⟨blames_stmt (h s hs) hl,
      fun _ _ _ hy => (stmt_yields.mp hy).known (h s hs) hl⟩
  obtain ⟨hparams, hlocals⟩ := Emit.blames_foldlM hparam Locals.known_nil
  refine (Emit.blames_ofExcept (blames_resultType decl)).bind fun result _ _ _ => ?_
  refine hparams.bind fun locals b b' hy => ?_
  obtain ⟨hbody, -⟩ := Emit.blames_foldlM (hstmt result) (hlocals b locals b' hy)
  exact hbody.bind fun _ _ _ _ => blames_close result decl.span

end Lowering

theorem FunctionDecl.blames_lower {decl : FunctionDecl} (h : decl.Typed) :
    Blames (decl.lower .default) := by
  have hrun := Lowering.blames_function h { name := decl.name }
  intro e he
  unfold FunctionDecl.lower at he
  split at he
  · cases he
  · next e' buffer hfunction =>
    obtain rfl := Except.error.inj he
    rw [hfunction] at hrun
    exact hrun _ rfl

end ContractGuard
