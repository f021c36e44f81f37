import ContractGuard.Proofs.Lowering.Ending
import ContractGuard.Proofs.Lowering.Growth
import ContractGuard.Proofs.Lowering.Refusal

/-!
# The first fault

A lowering that a fault of the source ends is a derivation as well: what comes before the
fault in evaluation order lowers, and the step that it lies at refuses. Operands come before
the operation, the left one first; a name is looked at before the value that is bound to it,
and a result after the value that is returned. Nothing after the fault occurs in the
derivation, so it does not matter what stands there.
-/

namespace ContractGuard

variable {r : Registry} {result : Option ScalarType} {locals : Locals} {fault : SourceFault}
  {b : Buffer}

def Expr.parts : Expr → List Expr
  | conversion target arg span => arg.parts ++ [conversion target arg span]
  | binary op left right span => left.parts ++ right.parts ++ [binary op left right span]
  | e => [e]

inductive Site where
  | declaration
  | param (p : Param)
  | stmt (s : Stmt)
  | expr (e : Expr)
deriving DecidableEq

def Stmt.sites : Stmt → List Site
  | bind name value span => .stmt (bind name value span) :: value.parts.map .expr
  | eval value span => value.parts.map .expr ++ [.stmt (eval value span)]
  | ret (some value) span => value.parts.map .expr ++ [.stmt (ret (some value) span)]
  | s => [.stmt s]

namespace FunctionDecl

def sites (decl : FunctionDecl) : List Site :=
  .declaration :: (decl.params.map .param ++ decl.body.flatMap Stmt.sites)

def spanOf (decl : FunctionDecl) : Site → Span
  | .declaration => decl.span
  | .param p => p.span
  | .stmt s => s.span
  | .expr e => e.span

/-- Each of its parts says where it stands. -/
def Spanned (decl : FunctionDecl) : Prop := ∀ site ∈ decl.sites, decl.spanOf site ≠ {}

instance (decl : FunctionDecl) : Decidable decl.Spanned := by
  unfold Spanned
  infer_instance

inductive Refuses (decl : FunctionDecl) : Site → Cause → Prop
  | resultType {name : String} :
      decl.returnType = some name → Refuses decl .declaration (.unknownTypeName name)
  | missingValue {name : String} :
      decl.returnType = some name →
      Refuses decl .declaration (.typeMismatch "void" name (some "return"))
  | paramType {p : Param} : Refuses decl (.param p) (.unknownTypeName p.typeName)
  | duplicateParam {p : Param} : Refuses decl (.param p) (.duplicateName p.name)
  | duplicateLet {name : String} {value : Expr} {span : Span} :
      Refuses decl (.stmt (.bind name value span)) (.duplicateName name)
  | bareReturn {span : Span} {typeName : String} :
      Refuses decl (.stmt (.ret none span)) (.typeMismatch "void" typeName (some "return"))
  | resultMismatch {value : Expr} {span : Span} {found typeName : String} :
      Refuses decl (.stmt (.ret (some value) span)) (.typeMismatch found typeName (some "return"))
  | illegalResult {value : Expr} {span : Span} {p : Payload} {typeName : String} :
      Refuses decl (.stmt (.ret (some value) span)) (.literalOutOfRange p typeName)
  | unknownName {ident : String} {span : Span} :
      Refuses decl (.expr (.name ident span)) (.unknownName ident)
  | conversion {target : String} {arg : Expr} {span : Span} {cause : Cause} :
      cause.OfConversion target → Refuses decl (.expr (.conversion target arg span)) cause
  | operation {op : ArithOp} {left right : Expr} {span : Span} {cause : Cause} :
      cause.OfOperation op → Refuses decl (.expr (.binary (.known op) left right span)) cause

end FunctionDecl

namespace Lowering

inductive ExprFaults (r : Registry) (locals : Locals) :
    Expr → Buffer → Expr → SourceFault → Prop
  | name {ident : String} {span : Span} {b : Buffer} :
      locals.lookup ident = none →
      ExprFaults r locals (.name ident span) b (.name ident span) ⟨.unknownName ident, span⟩
  | argument {target : String} {arg part : Expr} {span : Span} {b : Buffer}
      {fault : SourceFault} :
      ExprFaults r locals arg b part fault →
      ExprFaults r locals (.conversion target arg span) b part fault
  | conversion {target : String} {arg : Expr} {span : Span} {v : TypedValue} {b b₁ : Buffer}
      {fault : SourceFault} :
      ExprLowers r locals arg b v b₁ → r.Refuses v target span fault →
      ExprFaults r locals (.conversion target arg span) b (.conversion target arg span) fault
  | left {op : OperatorName} {left right part : Expr} {span : Span} {b : Buffer}
      {fault : SourceFault} :
      ExprFaults r locals left b part fault →
      ExprFaults r locals (.binary op left right span) b part fault
  | right {op : OperatorName} {left right part : Expr} {span : Span} {v : TypedValue}
      {b b₁ : Buffer} {fault : SourceFault} :
      ExprLowers r locals left b v b₁ → ExprFaults r locals right b₁ part fault →
      ExprFaults r locals (.binary op left right span) b part fault
  | operation {op : ArithOp} {left right : Expr} {span : Span} {v w : TypedValue}
      {b b₁ b₂ : Buffer} {fault : SourceFault} :
      ExprLowers r locals left b v b₁ → ExprLowers r locals right b₁ w b₂ →
      op.plan v w span = .error (.source fault) →
      ExprFaults r locals (.binary (.known op) left right span) b
        (.binary (.known op) left right span) fault

theorem expr_faults {e : Expr} :
    (expr r locals e).Faults b fault ↔ ∃ part, ExprFaults r locals e b part fault := by
  induction e generalizing b with
  | literal value ty span =>
    have hnone : ¬ ∃ part, ExprFaults r locals (.literal value ty span) b part fault := by
      rintro ⟨_, h⟩
      cases h
    cases ty <;> simpa [expr] using hnone
  | name ident span =>
    simp only [expr]
    cases hl : locals.lookup ident with
    | none =>
      simp only [Emit.ofExcept_faults, Fault.blame, Cause.message, Except.error.injEq,
        Fault.source.injEq]
      constructor
      · rintro rfl
        exact ⟨_, .name hl⟩
      · rintro ⟨_, h⟩
        cases h
        rfl
    | some v =>
      simp only [Emit.pure_faults, false_iff]
      rintro ⟨_, h⟩
      cases h
      simp_all
  | binary op left right span ihl ihr =>
    simp only [expr, Emit.bind_faults, ihl, ihr, expr_yields, guard_faults]
    constructor
    · rintro (⟨_, hl⟩ | ⟨v, b₁, hl, ⟨_, hr⟩ | ⟨w, b₂, hr, known, rfl, hplan⟩⟩)
      · exact ⟨_, .left hl⟩
      · exact ⟨_, .right hl hr⟩
      · exact ⟨_, .operation hl hr hplan⟩
    · rintro ⟨_, h⟩
      cases h with
      | left hl => exact .inl ⟨_, hl⟩
      | right hl hr => exact .inr ⟨_, _, hl, .inl ⟨_, hr⟩⟩
      | operation hl hr hplan => exact .inr ⟨_, _, hl, .inr ⟨_, _, hr, _, rfl, hplan⟩⟩
  | conversion target arg span ih =>
    simp only [expr, Emit.bind_faults, ih, expr_yields, Registry.convert_faults]
    constructor
    · rintro (⟨_, ha⟩ | ⟨v, b₁, ha, hrefuses⟩)
      · exact ⟨_, .argument ha⟩
      · exact ⟨_, .conversion ha hrefuses⟩
    · rintro ⟨_, h⟩
      cases h with
      | argument ha => exact .inl ⟨_, ha⟩
      | conversion ha hrefuses => exact .inr ⟨_, _, ha, hrefuses⟩
  | unsupported span =>
    simp only [expr, Emit.throw_faults, reduceCtorEq, false_iff]
    rintro ⟨_, h⟩
    cases h

theorem ExprLowers.parts {e : Expr} {v : TypedValue} {b' : Buffer}
    (h : ExprLowers r locals e b v b') :
    ∀ part ∈ e.parts, ∃ b₁ w b₂, ExprLowers r locals part b₁ w b₂ := by
  induction h with
  | @literal _ _ _ b => exact List.forall_mem_singleton.mpr ⟨b, _, b, .literal⟩
  | @name _ _ _ b hl => exact List.forall_mem_singleton.mpr ⟨b, _, b, .name hl⟩
  | conversion ha hc ih =>
    simp only [Expr.parts, List.forall_mem_append, List.forall_mem_singleton]
    exact ⟨ih, _, _, _, .conversion ha hc⟩
  | binary hl hr hg ihl ihr =>
    simp only [Expr.parts, List.forall_mem_append, List.forall_mem_singleton]
    exact ⟨⟨ihl, ihr⟩, _, _, _, .binary hl hr hg⟩

/-- In evaluation order every part before the fault lowers. -/
theorem ExprFaults.first {e part : Expr} (h : ExprFaults r locals e b part fault) :
    ∃ before after, e.parts = before ++ part :: after ∧
      ∀ p ∈ before, ∃ b₁ v b₂, ExprLowers r locals p b₁ v b₂ := by
  induction h with
  | name _ => exact ⟨[], [], rfl, by simp⟩
  | @argument target arg _ span _ _ _ ih =>
    obtain ⟨before, after, hparts, hbefore⟩ := ih
    exact ⟨before, after ++ [.conversion target arg span], by simp [Expr.parts, hparts], hbefore⟩
  | conversion ha _ => exact ⟨_, [], rfl, ha.parts⟩
  | @left op left right _ span _ _ _ ih =>
    obtain ⟨before, after, hparts, hbefore⟩ := ih
    exact ⟨before, after ++ (right.parts ++ [.binary op left right span]),
      by simp [Expr.parts, hparts], hbefore⟩
  | @right op left right _ span _ _ _ _ hl _ ih =>
    obtain ⟨before, after, hparts, hbefore⟩ := ih
    exact ⟨left.parts ++ before, after ++ [.binary op left right span],
      by simp [Expr.parts, hparts], List.forall_mem_append.mpr ⟨hl.parts, hbefore⟩⟩
  | operation hl hr _ =>
    exact ⟨_, [], rfl, List.forall_mem_append.mpr ⟨hl.parts, hr.parts⟩⟩

theorem ExprFaults.mem_parts {e part : Expr} (h : ExprFaults r locals e b part fault) :
    part ∈ e.parts := by
  obtain ⟨before, after, hparts, -⟩ := h.first
  simp [hparts]

theorem ExprFaults.refuses {e part : Expr} (h : ExprFaults r locals e b part fault)
    (hr : r.BuiltIn) (decl : FunctionDecl) :
    fault.span = part.span ∧ decl.Refuses (.expr part) fault.cause := by
  induction h with
  | name _ => exact ⟨rfl, .unknownName⟩
  | argument _ ih => exact ih
  | conversion _ hrefuses => exact (hrefuses.blames hr).imp_right .conversion
  | left _ ih => exact ih
  | right _ _ ih => exact ih
  | operation _ _ hplan => exact (ArithOp.blamesAt_plan _ _ _ _ hplan).imp_right .operation

inductive StmtFaults (r : Registry) (result : Option ScalarType) (locals : Locals) :
    Stmt → Buffer → Site → SourceFault → Prop
  | duplicate {name : String} {value : Expr} {span : Span} {v : TypedValue} {b : Buffer} :
      locals.lookup name = some v →
      StmtFaults r result locals (.bind name value span) b (.stmt (.bind name value span))
        ⟨.duplicateName name, span⟩
  | bound {name : String} {value part : Expr} {span : Span} {b : Buffer} {fault : SourceFault} :
      locals.lookup name = none → ExprFaults r locals value b part fault →
      StmtFaults r result locals (.bind name value span) b (.expr part) fault
  | evaluated {value part : Expr} {span : Span} {b : Buffer} {fault : SourceFault} :
      ExprFaults r locals value b part fault →
      StmtFaults r result locals (.eval value span) b (.expr part) fault
  | bareReturn {span : Span} {ty : ScalarType} {b : Buffer} :
      result = some ty →
      StmtFaults r result locals (.ret none span) b (.stmt (.ret none span))
        ⟨.typeMismatch "void" ty.name (some "return"), span⟩
  | returned {value part : Expr} {span : Span} {b : Buffer} {fault : SourceFault} :
      ExprFaults r locals value b part fault →
      StmtFaults r result locals (.ret (some value) span) b (.expr part) fault
  | valueReturn {value : Expr} {span : Span} {v : TypedValue} {b b₁ : Buffer}
      {fault : SourceFault} :
      ExprLowers r locals value b v b₁ →
      requireReturnable result v span = .error (.source fault) →
      StmtFaults r result locals (.ret (some value) span) b (.stmt (.ret (some value) span)) fault

theorem requireFresh_faults {name : String} {span : Span} :
    requireFresh locals name span = .error (.source fault) ↔
      ∃ v, locals.lookup name = some v ∧ fault = ⟨.duplicateName name, span⟩ := by
  simp only [requireFresh, Fault.require]
  cases locals.lookup name <;> simp [Fault.blame, Cause.message, eq_comm]

theorem requireNoResult_faults {span : Span} :
    requireNoResult result span = .error (.source fault) ↔
      ∃ ty, result = some ty ∧ fault = ⟨.typeMismatch "void" ty.name (some "return"), span⟩ := by
  cases result <;> simp [requireNoResult, Fault.blame, Cause.message, eq_comm]

theorem typeNamed_faults {name : String} {span : Span} :
    typeNamed name span = .error (.source fault) ↔
      ScalarType.find? name = none ∧ fault = ⟨.unknownTypeName name, span⟩ := by
  simp only [typeNamed]
  cases ScalarType.find? name <;> simp [Fault.blame, Cause.message, eq_comm]

theorem stmt_faults {s : Stmt} :
    (stmt r result locals s).Faults b fault ↔
      ∃ site, StmtFaults r result locals s b site fault := by
  cases s with
  | bind name value span =>
    simp only [stmt, Emit.bind_faults, Emit.ofExcept_faults, Emit.ofExcept_yields,
      requireFresh_faults, requireFresh_eq_ok, expr_faults, Emit.pure_faults, and_false,
      exists_false, or_false]
    constructor
    · rintro (⟨v, hlookup, rfl⟩ | ⟨_, _, ⟨hfresh, rfl⟩, _, he⟩)
      · exact ⟨_, .duplicate hlookup⟩
      · exact ⟨_, .bound hfresh he⟩
    · rintro ⟨_, h⟩
      cases h with
      | duplicate hlookup => exact .inl ⟨_, hlookup, rfl⟩
      | bound hfresh he => exact .inr ⟨(), _, ⟨hfresh, rfl⟩, _, he⟩
  | eval value span =>
    simp only [stmt, Emit.bind_faults, expr_faults, Emit.pure_faults, and_false, exists_false,
      or_false]
    constructor
    · rintro ⟨_, he⟩
      exact ⟨_, .evaluated he⟩
    · rintro ⟨_, h⟩
      cases h with
      | evaluated he => exact ⟨_, he⟩
  | ret value span =>
    cases value with
    | none =>
      simp only [stmt, Emit.bind_faults, Emit.ofExcept_faults, requireNoResult_faults,
        Emit.node_faults, Emit.pure_faults, and_false, exists_false, or_false]
      constructor
      · rintro ⟨ty, hresult, rfl⟩
        exact ⟨_, .bareReturn hresult⟩
      · rintro ⟨_, h⟩
        cases h with
        | bareReturn hresult => exact ⟨_, hresult, rfl⟩
    | some value =>
      simp only [stmt, Emit.bind_faults, Emit.ofExcept_faults, expr_faults, expr_yields,
        Emit.materialize_faults, Emit.node_faults, Emit.pure_faults, and_false, exists_false,
        or_false]
      constructor
      · rintro (⟨_, he⟩ | ⟨v, b₁, he, hreturn⟩)
        · exact ⟨_, .returned he⟩
        · exact ⟨_, .valueReturn he hreturn⟩
      · rintro ⟨_, h⟩
        cases h with
        | returned he => exact .inl ⟨_, he⟩
        | valueReturn he hreturn => exact .inr ⟨_, _, he, hreturn⟩
  | unsupported span =>
    simp only [stmt, Emit.throw_faults, reduceCtorEq, false_iff]
    rintro ⟨_, h⟩
    cases h

theorem StmtFaults.mem_sites {s : Stmt} {site : Site}
    (h : StmtFaults r result locals s b site fault) : site ∈ s.sites := by
  cases h with
  | duplicate _ => exact List.mem_cons_self
  | bound _ he => exact List.mem_cons_of_mem _ (List.mem_map_of_mem he.mem_parts)
  | bareReturn _ => exact List.mem_cons_self
  | evaluated he | returned he =>
    exact List.mem_append_left _ (List.mem_map_of_mem he.mem_parts)
  | valueReturn _ _ => exact List.mem_append_right _ List.mem_cons_self

theorem requireReturnable_refuses {decl : FunctionDecl} {value : Expr} {v : TypedValue}
    {span : Span} :
    BlamesAt span (decl.Refuses (.stmt (.ret (some value) span)))
      (requireReturnable result v span) := by
  have hresult : BlamesAt span (decl.Refuses (.stmt (.ret (some value) span)))
      (requireResult result v span) := by
    cases result with
    | none => exact blamesAt_ok ()
    | some ty => exact blamesAt_require fun _ => .resultMismatch
  refine hresult.bind fun _ => ?_
  split
  · exact v.blamesAt_requireLegal .illegalResult
  · exact blamesAt_ok ()

theorem StmtFaults.refuses {s : Stmt} {site : Site} (h : StmtFaults r result locals s b site fault)
    (hr : r.BuiltIn) (decl : FunctionDecl) :
    fault.span = decl.spanOf site ∧ decl.Refuses site fault.cause := by
  cases h with
  | duplicate _ => exact ⟨rfl, .duplicateLet⟩
  | bareReturn _ => exact ⟨rfl, .bareReturn⟩
  | bound _ he | evaluated he | returned he => exact he.refuses hr decl
  | valueReturn _ hreturn => exact requireReturnable_refuses _ hreturn

/-- The statement with this number, counted from one, is the first that faults. -/
inductive BodyFaults (r : Registry) (result : Option ScalarType) :
    List Stmt → Locals → Buffer → ℕ → Site → SourceFault → Prop
  | head {s : Stmt} {rest : List Stmt} {locals : Locals} {b : Buffer} {site : Site}
      {fault : SourceFault} :
      StmtFaults r result locals s b site fault →
      BodyFaults r result (s :: rest) locals b 1 site fault
  | tail {s : Stmt} {rest : List Stmt} {locals locals₁ : Locals} {b b₁ : Buffer} {n : ℕ}
      {site : Site} {fault : SourceFault} :
      StmtLowers r result locals s b locals₁ b₁ →
      BodyFaults r result rest locals₁ b₁ n site fault →
      BodyFaults r result (s :: rest) locals b (n + 1) site fault

variable {body : List Stmt} {n : ℕ} {site : Site}

theorem body_faults :
    (body.foldlM (stmt r result) locals).Faults b fault ↔
      ∃ n site, BodyFaults r result body locals b n site fault := by
  induction body generalizing locals b with
  | nil =>
    simp only [List.foldlM_nil, Emit.pure_faults, false_iff]
    rintro ⟨_, _, h⟩
    cases h
  | cons s rest ih =>
    simp only [List.foldlM_cons, Emit.bind_faults, stmt_faults, stmt_yields, ih]
    constructor
    · rintro (⟨_, hs⟩ | ⟨_, _, hs, _, _, hrest⟩)
      · exact ⟨_, _, .head hs⟩
      · exact ⟨_, _, .tail hs hrest⟩
    · rintro ⟨_, _, h⟩
      cases h with
      | head hs => exact .inl ⟨_, hs⟩
      | tail hs hrest => exact .inr ⟨_, _, hs, _, _, hrest⟩

theorem BodyFaults.mem_sites (h : BodyFaults r result body locals b n site fault) :
    site ∈ body.flatMap Stmt.sites := by
  induction h with
  | head hs => exact List.mem_append_left _ hs.mem_sites
  | tail _ _ ih => exact List.mem_append_right _ ih

theorem BodyFaults.refuses (h : BodyFaults r result body locals b n site fault) (hr : r.BuiltIn)
    (decl : FunctionDecl) : fault.span = decl.spanOf site ∧ decl.Refuses site fault.cause := by
  induction h with
  | head hs => exact hs.refuses hr decl
  | tail _ _ ih => exact ih

theorem BodyFaults.of_take {body' : List Stmt} (h : BodyFaults r result body locals b n site fault)
    (htake : body'.take n = body.take n) : BodyFaults r result body' locals b n site fault := by
  induction h generalizing body' with
  | head hs =>
    cases body' with
    | nil => simp at htake
    | cons s' rest' =>
      obtain ⟨rfl, -⟩ := List.cons.inj htake
      exact .head hs
  | tail hs _ ih =>
    cases body' with
    | nil => simp at htake
    | cons s' rest' =>
      obtain ⟨rfl, hrest⟩ := List.cons.inj htake
      exact .tail hs (ih hrest)

inductive ParamsFault : List Param → Locals → Buffer → Param → SourceFault → Prop
  | unknownType {p : Param} {rest : List Param} {locals : Locals} {b : Buffer} :
      ScalarType.find? p.typeName = none →
      ParamsFault (p :: rest) locals b p ⟨.unknownTypeName p.typeName, p.span⟩
  | duplicate {p : Param} {rest : List Param} {ty : ScalarType} {v : TypedValue}
      {locals : Locals} {b : Buffer} :
      ScalarType.find? p.typeName = some ty → locals.lookup p.name = some v →
      ParamsFault (p :: rest) locals b p ⟨.duplicateName p.name, p.span⟩
  | later {p q : Param} {rest : List Param} {ty : ScalarType} {locals : Locals} {b : Buffer}
      {fault : SourceFault} :
      ScalarType.find? p.typeName = some ty → locals.lookup p.name = none →
      ParamsFault rest ((p.name, .runtime ty b.fresh) :: locals)
        (b.push [.loadParam b.fresh p.name ty]) q fault →
      ParamsFault (p :: rest) locals b q fault

variable {params : List Param} {p : Param}

theorem param_faults :
    (param locals p).Faults b fault ↔
      (ScalarType.find? p.typeName = none ∧ fault = ⟨.unknownTypeName p.typeName, p.span⟩) ∨
      ∃ ty v, ScalarType.find? p.typeName = some ty ∧ locals.lookup p.name = some v ∧
        fault = ⟨.duplicateName p.name, p.span⟩ := by
  simp only [param, Emit.bind_faults, Emit.ofExcept_faults, Emit.ofExcept_yields,
    typeNamed_faults, typeNamed_eq_ok, requireFresh_faults, Emit.newValue_faults,
    Emit.node_faults, Emit.pure_faults, and_false, exists_false, or_false]
  grind

theorem params_faults :
    (params.foldlM param locals).Faults b fault ↔ ∃ p, ParamsFault params locals b p fault := by
  induction params generalizing locals b with
  | nil =>
    simp only [List.foldlM_nil, Emit.pure_faults, false_iff]
    rintro ⟨_, h⟩
    cases h
  | cons p rest ih =>
    simp only [List.foldlM_cons, Emit.bind_faults, param_faults, param_yields, ih]
    constructor
    · rintro ((⟨htype, rfl⟩ | ⟨ty, v, htype, hlookup, rfl⟩) |
        ⟨_, _, ⟨ty, htype, hfresh, rfl, rfl⟩, q, hrest⟩)
      · exact ⟨_, .unknownType htype⟩
      · exact ⟨_, .duplicate htype hlookup⟩
      · exact ⟨_, .later htype hfresh hrest⟩
    · rintro ⟨_, h⟩
      cases h with
      | unknownType htype => exact .inl (.inl ⟨htype, rfl⟩)
      | duplicate htype hlookup => exact .inl (.inr ⟨_, _, htype, hlookup, rfl⟩)
      | later htype hfresh hrest =>
        exact .inr ⟨_, _, ⟨_, htype, hfresh, rfl, rfl⟩, _, hrest⟩

theorem ParamsFault.mem (h : ParamsFault params locals b p fault) : p ∈ params := by
  induction h with
  | unknownType _ | duplicate _ _ => exact List.mem_cons_self
  | later _ _ _ ih => exact List.mem_cons_of_mem _ ih

theorem ParamsFault.refuses (h : ParamsFault params locals b p fault) (decl : FunctionDecl) :
    fault.span = p.span ∧ decl.Refuses (.param p) fault.cause := by
  induction h with
  | unknownType _ => exact ⟨rfl, .paramType⟩
  | duplicate _ _ => exact ⟨rfl, .duplicateParam⟩
  | later _ _ _ ih => exact ih

variable {decl : FunctionDecl}

theorem resultType_faults :
    resultType decl = .error (.source fault) ↔
      ∃ name, decl.returnType = some name ∧ ScalarType.find? name = none ∧
        fault = ⟨.unknownTypeName name, decl.span⟩ := by
  simp only [resultType]
  cases decl.returnType with
  | none => simp [pure, Except.pure]
  | some name =>
    simp only [Option.some.injEq, exists_eq_left', ← typeNamed_faults]
    cases typeNamed name decl.span <;> simp [bind, Except.bind, pure, Except.pure]

theorem resultType_eq_some {ty : ScalarType} (h : resultType decl = .ok (some ty)) :
    decl.returnType = some ty.name := by
  simp only [resultType] at h
  cases hreturn : decl.returnType with
  | none => simp [hreturn, pure, Except.pure] at h
  | some name =>
    simp only [hreturn, bind_eq_ok, typeNamed_eq_ok, pure_eq_ok, Option.some.injEq] at h
    obtain ⟨_, hfind, rfl⟩ := h
    rw [(ScalarType.find?_eq_some hfind).2]

theorem close_faults {span : Span} :
    (close result span).Faults b fault ↔
      endsInReturn b = false ∧ ∃ ty, result = some ty ∧
        fault = ⟨.typeMismatch "void" ty.name (some "return"), span⟩ := by
  simp only [close, Emit.bind_faults, Emit.get_faults, Emit.get_yields, false_or]
  cases he : endsInReturn b with
  | true =>
    constructor
    · rintro ⟨_, _, ⟨rfl, rfl⟩, h⟩
      simp [he] at h
    · simp
  | false =>
    constructor
    · rintro ⟨_, _, ⟨rfl, rfl⟩, h⟩
      simp only [he, Bool.not_false, if_true, Emit.bind_faults, Emit.ofExcept_faults,
        requireNoResult_faults, Emit.node_faults, and_false, exists_false, or_false] at h
      exact ⟨rfl, h⟩
    · rintro ⟨-, h⟩
      refine ⟨_, _, ⟨rfl, rfl⟩, ?_⟩
      simpa only [he, Bool.not_false, if_true, Emit.bind_faults, Emit.ofExcept_faults,
        requireNoResult_faults, Emit.node_faults, and_false, exists_false, or_false] using h

/-- The number says how much of the body is looked at: none of it before the signature is
accepted, and its end as well where a value is missing. -/
inductive FunctionFaults (r : Registry) (decl : FunctionDecl) : ℕ → Site → SourceFault → Prop
  | resultType {name : String} :
      decl.returnType = some name → ScalarType.find? name = none →
      FunctionFaults r decl 0 .declaration ⟨.unknownTypeName name, decl.span⟩
  | params {result : Option ScalarType} {p : Param} {fault : SourceFault} :
      resultType decl = .ok result → ParamsFault decl.params [] { name := decl.name } p fault →
      FunctionFaults r decl 0 (.param p) fault
  | body {result : Option ScalarType} {locals : Locals} {b : Buffer} {n : ℕ} {site : Site}
      {fault : SourceFault} :
      resultType decl = .ok result →
      ParamsLower decl.params [] { name := decl.name } locals b →
      BodyFaults r result decl.body locals b n site fault →
      FunctionFaults r decl n site fault
  | missingValue {ty : ScalarType} {b : Buffer} :
      Completes r decl (some ty) b → endsInReturn b = false →
      FunctionFaults r decl (decl.body.length + 1) .declaration
        ⟨.typeMismatch "void" ty.name (some "return"), decl.span⟩

theorem function_faults :
    (function r decl).Faults { name := decl.name } fault ↔
      ∃ n site, FunctionFaults r decl n site fault := by
  simp only [function, Emit.bind_faults, Emit.ofExcept_faults, Emit.ofExcept_yields,
    resultType_faults, params_faults, params_yields, body_faults, body_yields, close_faults]
  constructor
  · rintro (⟨name, hreturn, hfind, rfl⟩ | ⟨result, _, ⟨hresult, rfl⟩, ⟨p, hp⟩ |
      ⟨locals, b, hp, ⟨n, site, hb⟩ | ⟨locals', b', hb, hopen, ty, rfl, rfl⟩⟩⟩)
    · exact ⟨_, _, .resultType hreturn hfind⟩
    · exact ⟨_, _, .params hresult hp⟩
    · exact ⟨_, _, .body hresult hp hb⟩
    · exact ⟨_, _, .missingValue ⟨hresult, _, _, _, hp, hb⟩ hopen⟩
  · rintro ⟨_, _, h⟩
    cases h with
    | resultType hreturn hfind => exact .inl ⟨_, hreturn, hfind, rfl⟩
    | params hresult hp => exact .inr ⟨_, _, ⟨hresult, rfl⟩, .inl ⟨_, hp⟩⟩
    | body hresult hp hb => exact .inr ⟨_, _, ⟨hresult, rfl⟩, .inr ⟨_, _, hp, .inl ⟨_, _, hb⟩⟩⟩
    | missingValue hcompletes hopen =>
      obtain ⟨hresult, locals, b₀, locals', hp, hb⟩ := hcompletes
      exact .inr ⟨_, _, ⟨hresult, rfl⟩, .inr ⟨_, _, hp, .inr ⟨_, _, hb, hopen, _, rfl, rfl⟩⟩⟩

theorem lower_faults :
    decl.lower r = .error (.source fault) ↔ ∃ n site, FunctionFaults r decl n site fault := by
  rw [← function_faults, Emit.Faults, FunctionDecl.lower]
  rcases (function r decl).run { name := decl.name } with ⟨_ | _, _⟩ <;> simp

theorem FunctionFaults.mem_sites (h : FunctionFaults r decl n site fault) : site ∈ decl.sites := by
  cases h with
  | resultType _ _ | missingValue _ _ => exact List.mem_cons_self
  | params _ hp =>
    exact List.mem_cons_of_mem _ (List.mem_append_left _ (List.mem_map_of_mem hp.mem))
  | body _ _ hb => exact List.mem_cons_of_mem _ (List.mem_append_right _ hb.mem_sites)

theorem FunctionFaults.refuses (h : FunctionFaults r decl n site fault) (hr : r.BuiltIn) :
    fault.span = decl.spanOf site ∧ decl.Refuses site fault.cause := by
  cases h with
  | resultType hreturn _ => exact ⟨rfl, .resultType hreturn⟩
  | params _ hp => exact hp.refuses decl
  | body _ _ hb => exact hb.refuses hr decl
  | missingValue hcompletes _ =>
    exact ⟨rfl, .missingValue (resultType_eq_some hcompletes.resultType)⟩

theorem FunctionFaults.of_take {body' : List Stmt} (h : FunctionFaults r decl n site fault)
    (htake : body'.take n = decl.body.take n) :
    FunctionFaults r { decl with body := body' } n site fault := by
  cases h with
  | resultType hreturn hfind => exact .resultType hreturn hfind
  | params hresult hp => exact .params hresult hp
  | body hresult hp hb => exact .body hresult hp (hb.of_take htake)
  | missingValue hcompletes hopen =>
    -- the end of the body is looked at, so there is no later statement to change
    have hbody : body' = decl.body := by
      rw [List.take_of_length_le (l := decl.body) (by omega)] at htake
      have hlength := congrArg List.length htake
      rw [List.length_take] at hlength
      rw [← htake, List.take_of_length_le (by omega)]
    subst hbody
    exact .missingValue hcompletes hopen

end Lowering

end ContractGuard
