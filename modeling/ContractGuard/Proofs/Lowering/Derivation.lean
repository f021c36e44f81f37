import ContractGuard.Proofs.Lowering.Steps

/-!
# Finished lowerings

A finished lowering is a derivation: what it does to the locals and to the buffer is
read off the form of the expression, of the statement and of the list. A declaration
lowers to a function exactly when there is such a derivation.
-/

namespace ContractGuard.Lowering

variable {r : Registry} {result : Option ScalarType}

inductive ExprLowers (r : Registry) (locals : Locals) :
    Expr → Buffer → TypedValue → Buffer → Prop
  | literal {value : Payload} {ty : ScalarType} {span : Span} {b : Buffer} :
      ExprLowers r locals (.literal value (some ty) span) b (.literal ty value) b
  | name {ident : String} {span : Span} {v : TypedValue} {b : Buffer} :
      locals.lookup ident = some v → ExprLowers r locals (.name ident span) b v b
  | conversion {target : String} {arg : Expr} {span : Span} {v w : TypedValue}
      {b b₁ b₂ : Buffer} :
      ExprLowers r locals arg b v b₁ → (r.convert v target span).Yields b₁ w b₂ →
      ExprLowers r locals (.conversion target arg span) b w b₂
  | binary {op : OperatorName} {left right : Expr} {span : Span} {v w u : TypedValue}
      {b b₁ b₂ b₃ : Buffer} :
      ExprLowers r locals left b v b₁ → ExprLowers r locals right b₁ w b₂ →
      (guard op v w span).Yields b₂ u b₃ →
      ExprLowers r locals (.binary op left right span) b u b₃

theorem expr_yields {locals : Locals} {e : Expr} {b b' : Buffer} {v : TypedValue} :
    (expr r locals e).Yields b v b' ↔ ExprLowers r locals e b v b' := by
  induction e generalizing b v b' with
  | literal value ty span =>
    cases ty with
    | none =>
      simp only [expr, Emit.throw_yields, false_iff]
      intro h
      cases h
    | some ty =>
      simp only [expr, Emit.pure_yields]
      constructor
      · intro hy
        obtain ⟨rfl, rfl⟩ := hy
        exact .literal
      · intro h
        cases h
        exact ⟨rfl, rfl⟩
  | name ident span =>
    simp only [expr]
    cases hl : locals.lookup ident with
    | none =>
      simp only [Emit.ofExcept_yields, Fault.blame_ne_ok, false_and, false_iff]
      intro h
      cases h
      simp_all
    | some w =>
      simp only [Emit.pure_yields]
      constructor
      · intro hy
        obtain ⟨rfl, rfl⟩ := hy
        exact .name hl
      · intro h
        cases h
        simp_all
  | binary op left right span ihl ihr =>
    simp only [expr, Emit.bind_yields, ihl, ihr]
    constructor
    · intro hy
      obtain ⟨_, _, hl, _, _, hr, hg⟩ := hy
      exact .binary hl hr hg
    · intro h
      cases h with
      | binary hl hr hg => exact ⟨_, _, hl, _, _, hr, hg⟩
  | conversion target arg span ih =>
    simp only [expr, Emit.bind_yields, ih]
    constructor
    · intro hy
      obtain ⟨_, _, ha, hc⟩ := hy
      exact .conversion ha hc
    · intro h
      cases h with
      | conversion ha hc => exact ⟨_, _, ha, hc⟩
  | unsupported span =>
    simp only [expr, Emit.throw_yields, false_iff]
    intro h
    cases h

theorem requireNoResult_eq_ok {span : Span} {u : Unit} :
    requireNoResult result span = .ok u ↔ result = none := by
  cases result <;> simp [requireNoResult]

theorem requireFresh_eq_ok {locals : Locals} {name : String} {span : Span} {u : Unit} :
    requireFresh locals name span = .ok u ↔ locals.lookup name = none := by
  simp [requireFresh]

theorem typeNamed_eq_ok {name : String} {span : Span} {ty : ScalarType} :
    typeNamed name span = .ok ty ↔ ScalarType.find? name = some ty := by
  simp only [typeNamed]
  cases ScalarType.find? name <;> simp

inductive StmtLowers (r : Registry) (result : Option ScalarType) (locals : Locals) :
    Stmt → Buffer → Locals → Buffer → Prop
  | bind {name : String} {value : Expr} {span : Span} {v : TypedValue} {b b₁ : Buffer} :
      locals.lookup name = none → ExprLowers r locals value b v b₁ →
      StmtLowers r result locals (.bind name value span) b ((name, v) :: locals) b₁
  | eval {value : Expr} {span : Span} {v : TypedValue} {b b₁ : Buffer} :
      ExprLowers r locals value b v b₁ →
      StmtLowers r result locals (.eval value span) b locals b₁
  | bareReturn {span : Span} {b : Buffer} :
      result = none → StmtLowers r result locals (.ret none span) b locals (b.push [.ret none])
  | valueReturn {value : Expr} {span : Span} {v : TypedValue} {id : ValueId}
      {b b₁ b₂ : Buffer} :
      ExprLowers r locals value b v b₁ → requireReturnable result v span = .ok () →
      Emit.Holds v b₁ id b₂ →
      StmtLowers r result locals (.ret (some value) span) b locals (b₂.push [.ret (some id)])

theorem stmt_yields {locals locals' : Locals} {s : Stmt} {b b' : Buffer} :
    (stmt r result locals s).Yields b locals' b' ↔ StmtLowers r result locals s b locals' b' := by
  have hpush : ∀ (b₁ : Buffer) (value : Option ValueId),
      ({ b₁ with nodes := b₁.nodes ++ [.ret value] } : Buffer) = b₁.push [.ret value] := by
    intro b₁ value
    simp [Buffer.push, Node.dest?, Node.defines]
  cases s with
  | bind name value span =>
    simp only [stmt, Emit.bind_yields, Emit.ofExcept_yields, requireFresh_eq_ok, expr_yields,
      Emit.pure_yields]
    constructor
    · intro hy
      obtain ⟨_, _, ⟨hf, rfl⟩, _, _, he, rfl, rfl⟩ := hy
      exact .bind hf he
    · intro h
      cases h with
      | bind hf he => exact ⟨(), _, ⟨hf, rfl⟩, _, _, he, rfl, rfl⟩
  | ret value span =>
    cases value with
    | none =>
      simp only [stmt, Emit.bind_yields, Emit.ofExcept_yields, requireNoResult_eq_ok,
        Emit.node_yields, Emit.pure_yields, hpush]
      constructor
      · intro hy
        obtain ⟨_, _, ⟨hn, rfl⟩, _, _, rfl, rfl, rfl⟩ := hy
        exact .bareReturn hn
      · intro h
        cases h with
        | bareReturn hn => exact ⟨(), _, ⟨hn, rfl⟩, (), _, rfl, rfl, rfl⟩
    | some value =>
      simp only [stmt, Emit.bind_yields, Emit.ofExcept_yields, expr_yields,
        Emit.materialize_yields, Emit.node_yields, Emit.pure_yields, hpush]
      constructor
      · intro hy
        obtain ⟨_, _, he, _, _, ⟨hq, rfl⟩, _, _, hm, _, _, rfl, rfl, rfl⟩ := hy
        exact .valueReturn he hq hm
      · intro h
        cases h with
        | valueReturn he hq hm =>
          exact ⟨_, _, he, (), _, ⟨hq, rfl⟩, _, _, hm, (), _, rfl, rfl, rfl⟩
  | eval value span =>
    simp only [stmt, Emit.bind_yields, expr_yields, Emit.pure_yields]
    constructor
    · intro hy
      obtain ⟨_, _, he, rfl, rfl⟩ := hy
      exact .eval he
    · intro h
      cases h with
      | eval he => exact ⟨_, _, he, rfl, rfl⟩
  | unsupported span =>
    simp only [stmt, Emit.throw_yields, false_iff]
    intro h
    cases h

inductive BodyLowers (r : Registry) (result : Option ScalarType) :
    List Stmt → Locals → Buffer → Locals → Buffer → Prop
  | nil {locals : Locals} {b : Buffer} : BodyLowers r result [] locals b locals b
  | cons {s : Stmt} {rest : List Stmt} {locals locals₁ locals₂ : Locals} {b b₁ b₂ : Buffer} :
      StmtLowers r result locals s b locals₁ b₁ →
      BodyLowers r result rest locals₁ b₁ locals₂ b₂ →
      BodyLowers r result (s :: rest) locals b locals₂ b₂

theorem body_yields {body : List Stmt} {locals locals' : Locals} {b b' : Buffer} :
    (body.foldlM (stmt r result) locals).Yields b locals' b' ↔
      BodyLowers r result body locals b locals' b' := by
  induction body generalizing locals b with
  | nil =>
    simp only [List.foldlM_nil, Emit.pure_yields]
    constructor
    · intro hy
      obtain ⟨rfl, rfl⟩ := hy
      exact .nil
    · intro h
      cases h
      exact ⟨rfl, rfl⟩
  | cons s rest ih =>
    simp only [List.foldlM_cons, Emit.bind_yields, stmt_yields, ih]
    constructor
    · intro hy
      obtain ⟨_, _, hs, hrest⟩ := hy
      exact .cons hs hrest
    · intro h
      cases h with
      | cons hs hrest => exact ⟨_, _, hs, hrest⟩

theorem param_yields {p : Param} {locals locals' : Locals} {b b' : Buffer} :
    (param locals p).Yields b locals' b' ↔
      ∃ ty, ScalarType.find? p.typeName = some ty ∧ locals.lookup p.name = none ∧
        locals' = (p.name, .runtime ty b.fresh) :: locals ∧
        b' = b.push [.loadParam b.fresh p.name ty] := by
  have hpush : ∀ ty, ({ b with
        nextValue := b.nextValue + 1, nodes := b.nodes ++ [.loadParam b.fresh p.name ty] } :
        Buffer) = b.push [.loadParam b.fresh p.name ty] := by
    intro ty
    simp [Buffer.push, Node.dest?, Node.defines]
  simp only [param, Emit.bind_yields, Emit.ofExcept_yields, typeNamed_eq_ok, requireFresh_eq_ok,
    Emit.newValue_yields, Emit.node_yields, Emit.pure_yields]
  constructor
  · intro hy
    obtain ⟨ty, _, ⟨ht, rfl⟩, _, _, ⟨hf, rfl⟩, _, _, ⟨rfl, rfl⟩, _, _, rfl, rfl, rfl⟩ := hy
    exact ⟨ty, ht, hf, rfl, hpush ty⟩
  · intro hy
    obtain ⟨ty, ht, hf, rfl, rfl⟩ := hy
    exact ⟨ty, _, ⟨ht, rfl⟩, (), _, ⟨hf, rfl⟩, _, _, ⟨rfl, rfl⟩, (), _, rfl, rfl, hpush ty⟩

inductive ParamsLower : List Param → Locals → Buffer → Locals → Buffer → Prop
  | nil {locals : Locals} {b : Buffer} : ParamsLower [] locals b locals b
  | cons {p : Param} {rest : List Param} {ty : ScalarType} {locals locals' : Locals}
      {b b' : Buffer} :
      ScalarType.find? p.typeName = some ty → locals.lookup p.name = none →
      ParamsLower rest ((p.name, .runtime ty b.fresh) :: locals)
        (b.push [.loadParam b.fresh p.name ty]) locals' b' →
      ParamsLower (p :: rest) locals b locals' b'

theorem params_yields {params : List Param} {locals locals' : Locals} {b b' : Buffer} :
    (params.foldlM param locals).Yields b locals' b' ↔
      ParamsLower params locals b locals' b' := by
  induction params generalizing locals b with
  | nil =>
    simp only [List.foldlM_nil, Emit.pure_yields]
    constructor
    · intro hy
      obtain ⟨rfl, rfl⟩ := hy
      exact .nil
    · intro h
      cases h
      exact ⟨rfl, rfl⟩
  | cons p rest ih =>
    simp only [List.foldlM_cons, Emit.bind_yields, param_yields, ih]
    constructor
    · intro hy
      obtain ⟨_, _, ⟨ty, ht, hf, rfl, rfl⟩, hrest⟩ := hy
      exact .cons ht hf hrest
    · intro h
      cases h with
      | cons ht hf hrest => exact ⟨_, _, ⟨_, ht, hf, rfl, rfl⟩, hrest⟩

inductive Closes (result : Option ScalarType) (b : Buffer) : Buffer → Prop
  | ended : endsInReturn b = true → Closes result b b
  | open : endsInReturn b = false → result = none → Closes result b (b.push [.ret none])

theorem close_yields {span : Span} {b b' : Buffer} {u : Unit} :
    (close result span).Yields b u b' ↔ Closes result b b' := by
  simp only [close, Emit.bind_yields, Emit.get_yields]
  cases he : endsInReturn b with
  | true =>
    constructor
    · intro hy
      obtain ⟨_, _, ⟨rfl, rfl⟩, h⟩ := hy
      simp only [he, Bool.not_true, Bool.false_eq_true, if_false, Emit.pure_yields] at h
      obtain ⟨-, rfl⟩ := h
      exact .ended he
    · intro h
      cases h with
      | ended _ => exact ⟨_, _, ⟨rfl, rfl⟩, by simp [he]⟩
      | «open» hn _ => simp [he] at hn
  | false =>
    constructor
    · intro hy
      obtain ⟨_, _, ⟨rfl, rfl⟩, h⟩ := hy
      simp only [he, Bool.not_false, if_true, Emit.bind_yields, Emit.ofExcept_yields,
        requireNoResult_eq_ok, Emit.node_yields] at h
      obtain ⟨_, _, ⟨hn, rfl⟩, rfl⟩ := h
      have h := Closes.open he hn
      simpa [Buffer.push, Node.dest?, Node.defines] using h
    · intro h
      cases h with
      | ended hn => simp [he] at hn
      | «open» _ hn =>
        exact ⟨_, _, ⟨rfl, rfl⟩, by
          simp [he, requireNoResult_eq_ok, hn, Buffer.push, Node.dest?, Node.defines]⟩

structure FunctionLowers (r : Registry) (decl : FunctionDecl) (result : Option ScalarType)
    (locals locals' : Locals) (b₀ b₁ b₂ : Buffer) : Prop where
  resultType : resultType decl = .ok result
  params : ParamsLower decl.params [] { name := decl.name } locals b₀
  body : BodyLowers r result decl.body locals b₀ locals' b₁
  closes : Closes result b₁ b₂

theorem lower_eq_ok {decl : FunctionDecl} {f : CompiledFunction} :
    decl.lower r = .ok f ↔ ∃ result locals locals' b₀ b₁ b₂,
      FunctionLowers r decl result locals locals' b₀ b₁ b₂ ∧ f = b₂.finish := by
  have hrun : decl.lower r = .ok f ↔
      ∃ b₂, (function r decl).Yields { name := decl.name } () b₂ ∧ b₂.finish = f := by
    unfold FunctionDecl.lower Emit.Yields
    rcases (function r decl).run { name := decl.name } with ⟨_ | _, b₂⟩
    · constructor
      · intro h
        cases h
      · intro hy
        obtain ⟨_, h, _⟩ := hy
        cases h
    · constructor
      · intro h
        cases h
        exact ⟨b₂, rfl, rfl⟩
      · intro hy
        obtain ⟨_, h, rfl⟩ := hy
        cases h
        rfl
  rw [hrun]
  simp only [function, Emit.bind_yields, Emit.ofExcept_yields, params_yields, body_yields,
    close_yields]
  constructor
  · intro hy
    obtain ⟨b₂, ⟨result, _, ⟨hr, rfl⟩, locals, b₀, hp, locals', b₁, hb, hc⟩, rfl⟩ := hy
    exact ⟨result, locals, locals', b₀, b₁, b₂, ⟨hr, hp, hb, hc⟩, rfl⟩
  · intro hy
    obtain ⟨result, locals, locals', b₀, b₁, b₂, ⟨hr, hp, hb, hc⟩, rfl⟩ := hy
    exact ⟨b₂, ⟨result, _, ⟨hr, rfl⟩, locals, b₀, hp, locals', b₁, hb, hc⟩, rfl⟩

end ContractGuard.Lowering

namespace ContractGuard

/-- A share of an amount in hundredths: the rate and the divisor are widened, and the
divisor is bound to a name before it is used. -/
def FunctionDecl.share : FunctionDecl where
  name := "share"
  attributes := [.known .isPublic]
  params := [⟨"amount", "uint256", {}⟩, ⟨"rate", "uint8", {}⟩]
  returnType := some "uint256"
  body :=
    let product := .binary (.known .mul) (.name "amount" {})
      (.conversion "uint256" (.name "rate" {}) {}) {}
    [.bind "hundred" (.conversion "uint256" (.literal (.int 100) (some (.uint 8)) {}) {}) {},
      .ret (some (.binary (.known .div) product (.name "hundred" {}) {})) {}]
  span := {}

theorem FunctionDecl.share_lowers : ∃ f, share.lower .default = .ok f := by
  have h : (share.lower .default).isOk = true := by decide +kernel
  cases hf : share.lower .default with
  | ok f => exact ⟨f, rfl⟩
  | error e => simp [hf, Except.isOk, Except.toBool] at h

end ContractGuard
