import ContractGuard.Proofs.Lowering.Derivation

/-!
# How a body ends

Whether a body returns is read off the last node of its code. Statements that bind or evaluate
a bare literal or a name emit no node, and any other statement but a return leaves a clamp last.
So a function with a result type is accepted exactly if nothing but silent statements follows
some return of its body. A conversion or an operation after the return, which can never run,
makes it a function without a value.
-/

namespace ContractGuard

variable {r : Registry} {result : Option ScalarType} {ty : ScalarType} {decl : FunctionDecl}
  {body more : List Stmt} {b b' : Buffer}

def Expr.isBare : Expr → Bool
  | .literal .. | .name .. => true
  | _ => false

namespace Stmt

def isSilent : Stmt → Bool
  | bind _ value _ | eval value _ => value.isBare
  | _ => false

def isReturn : Stmt → Bool
  | ret .. => true
  | _ => false

/-- Whether code ends in a return after the statement, from whether it did before. -/
def leavesReturn (returned : Bool) (s : Stmt) : Bool :=
  s.isReturn || (s.isSilent && returned)

/-- After some return of the body nothing is emitted. -/
def EndsReturning (body : List Stmt) : Prop :=
  ∃ before s after, body = before ++ s :: after ∧ s.isReturn = true ∧
    ∀ t ∈ after, t.isSilent = true

theorem EndsReturning.append_left (h : EndsReturning more) (body : List Stmt) :
    EndsReturning (body ++ more) := by
  obtain ⟨before, s, after, rfl, hs, hafter⟩ := h
  exact ⟨body ++ before, s, after, by simp, hs, hafter⟩

theorem foldl_leavesReturn (body : List Stmt) (returned : Bool) :
    body.foldl leavesReturn returned = true ↔
      EndsReturning body ∨ (returned = true ∧ ∀ s ∈ body, s.isSilent = true) := by
  induction body generalizing returned with
  | nil =>
    have hnone : ¬ EndsReturning [] := by
      rintro ⟨before, s, after, h, -⟩
      simp at h
    simp [hnone]
  | cons s body ih =>
    have hcons : EndsReturning (s :: body) ↔
        EndsReturning body ∨ (s.isReturn = true ∧ ∀ t ∈ body, t.isSilent = true) := by
      constructor
      · rintro ⟨_ | ⟨s', before⟩, t, after, h, ht, hafter⟩
        · obtain ⟨rfl, rfl⟩ := List.cons.inj h
          exact .inr ⟨ht, hafter⟩
        · obtain ⟨-, rfl⟩ := List.cons.inj h
          exact .inl ⟨before, t, after, rfl, ht, hafter⟩
      · rintro (h | ⟨hs, hbody⟩)
        · exact h.append_left [s]
        · exact ⟨[], s, body, rfl, hs, hbody⟩
    rw [List.foldl_cons, ih, hcons, List.forall_mem_cons]
    simp only [leavesReturn, Bool.or_eq_true, Bool.and_eq_true]
    tauto

theorem foldl_leavesReturn_false (body : List Stmt) :
    body.foldl leavesReturn false = true ↔ EndsReturning body := by
  simp [foldl_leavesReturn]

theorem EndsReturning.append_iff (h : EndsReturning body) :
    EndsReturning (body ++ more) ↔ EndsReturning more ∨ ∀ s ∈ more, s.isSilent = true := by
  rw [← foldl_leavesReturn_false, List.foldl_append, (foldl_leavesReturn_false body).mpr h,
    foldl_leavesReturn]
  simp

end Stmt

theorem ConversionEntry.Emits.endsInReturn {entry : ConversionEntry} {v w : TypedValue}
    {converted : Converted} (h : entry.Emits v converted b w b') :
    Lowering.endsInReturn b' = false := by
  cases h <;> simp [Lowering.endsInReturn, Node.isReturn]

theorem ArithOp.Emits.endsInReturn {op : ArithOp} {v w u : TypedValue} {folded : Option Payload}
    (h : op.Emits v w folded b u b') : Lowering.endsInReturn b' = false := by
  cases h
  simp [Lowering.endsInReturn, Node.isReturn]

namespace Lowering

variable {locals locals' : Locals}

theorem ExprLowers.endsInReturn {e : Expr} {v : TypedValue} (h : ExprLowers r locals e b v b') :
    endsInReturn b' = (e.isBare && endsInReturn b) := by
  cases h with
  | literal | name _ => rfl
  | conversion _ hc =>
    obtain ⟨_, _, _, _, he⟩ := Registry.convert_yields.mp hc
    exact he.endsInReturn
  | binary _ _ hg =>
    obtain ⟨_, _, _, _, he⟩ := guard_yields.mp hg
    exact he.endsInReturn

theorem StmtLowers.endsInReturn {s : Stmt} (h : StmtLowers r result locals s b locals' b') :
    endsInReturn b' = s.leavesReturn (endsInReturn b) := by
  cases h with
  | bind _ he | eval he => exact he.endsInReturn
  | bareReturn _ | valueReturn _ _ _ =>
    simp [Lowering.endsInReturn, Stmt.leavesReturn, Stmt.isReturn, Node.isReturn]

theorem BodyLowers.endsInReturn (h : BodyLowers r result body locals b locals' b') :
    endsInReturn b' = body.foldl Stmt.leavesReturn (endsInReturn b) := by
  induction h with
  | nil => rfl
  | cons hs _ ih => rw [ih, hs.endsInReturn, List.foldl_cons]

theorem ParamsLower.endsInReturn {params : List Param}
    (h : ParamsLower params locals b locals' b') (hb : endsInReturn b = false) :
    endsInReturn b' = false := by
  induction h with
  | nil => exact hb
  | cons _ _ _ ih => exact ih (by simp [Lowering.endsInReturn, Node.isReturn])

structure Completes (r : Registry) (decl : FunctionDecl) (result : Option ScalarType)
    (b : Buffer) : Prop where
  resultType : resultType decl = .ok result
  lowers : ∃ locals b₀ locals', ParamsLower decl.params [] { name := decl.name } locals b₀ ∧
    BodyLowers r result decl.body locals b₀ locals' b

theorem Completes.endsInReturn (h : Completes r decl result b) :
    Lowering.endsInReturn b = true ↔ Stmt.EndsReturning decl.body := by
  obtain ⟨locals, b₀, locals', hparams, hbody⟩ := h.lowers
  rw [hbody.endsInReturn, hparams.endsInReturn rfl, Stmt.foldl_leavesReturn_false]

theorem FunctionLowers.completes {locals locals' : Locals} {b₀ b₁ b₂ : Buffer}
    (h : FunctionLowers r decl result locals locals' b₀ b₁ b₂) : Completes r decl result b₁ :=
  ⟨h.resultType, locals, b₀, locals', h.params, h.body⟩

end Lowering

theorem Emit.run_bind {α β : Type} {x : Emit α} {f : α → Emit β} {a : α} (h : x.Yields b a b') :
    (x >>= f).run b = (f a).run b' := by
  change (ExceptT.bindCont f (x.run b).1).run (x.run b).2 = _
  rw [h]
  rfl

namespace Lowering

theorem Completes.run (h : Completes r decl result b) :
    (function r decl).run { name := decl.name } = (close result decl.span).run b := by
  obtain ⟨locals, b₀, locals', hparams, hbody⟩ := h.lowers
  have hresult : (Emit.ofExcept (Lowering.resultType decl)).Yields { name := decl.name } result
      { name := decl.name } := Emit.ofExcept_yields.mpr ⟨h.resultType, rfl⟩
  rw [function, Emit.run_bind hresult, Emit.run_bind (params_yields.mpr hparams),
    Emit.run_bind (body_yields.mpr hbody)]

theorem Completes.lower_of_closes (h : Completes r decl result b) (hc : Closes result b b') :
    decl.lower r = .ok b'.finish := by
  have hrun : (close result decl.span).run b = (.ok (), b') := close_yields.mpr hc
  rw [FunctionDecl.lower, h.run, hrun]

theorem Completes.lower_of_open (h : Completes r decl (some ty) b)
    (he : Lowering.endsInReturn b = false) :
    decl.lower r = .error (.source ⟨.typeMismatch "void" ty.name (some "return"), decl.span⟩) := by
  have hrun : (close (some ty) decl.span).run b =
      (.error (.source ⟨.typeMismatch "void" ty.name (some "return"), decl.span⟩), b) := by
    rw [close, Emit.run_bind (Emit.get_yields.mpr ⟨rfl, rfl⟩), he]
    rfl
  rw [FunctionDecl.lower, h.run, hrun]

theorem Completes.lowers_of_endsReturning (h : Completes r decl result b)
    (hbody : Stmt.EndsReturning decl.body) : decl.lower r = .ok b.finish :=
  h.lower_of_closes (.ended (h.endsInReturn.mpr hbody))

theorem Completes.valueless_of_not_endsReturning (h : Completes r decl (some ty) b)
    (hbody : ¬ Stmt.EndsReturning decl.body) :
    decl.lower r = .error (.source ⟨.typeMismatch "void" ty.name (some "return"), decl.span⟩) :=
  h.lower_of_open (by simpa using h.endsInReturn.not.mpr hbody)

end Lowering

namespace FunctionDecl

open Lowering

/-- A declaration with a result type whose statements all lower is accepted exactly if its body
ends returning, and is otherwise reported as one without a value. Statements added to an accepted
one keep it so exactly if they are silent or end returning themselves. -/
theorem lower_iff_endsReturning (h : Completes r decl (some ty) b) :
    ((∃ f, decl.lower r = .ok f) ↔ Stmt.EndsReturning decl.body) ∧
    (decl.lower r = .error (.source ⟨.typeMismatch "void" ty.name (some "return"), decl.span⟩) ↔
      ¬ Stmt.EndsReturning decl.body) ∧
    ∀ more b', (∃ f, decl.lower r = .ok f) →
      Completes r { decl with body := decl.body ++ more } (some ty) b' →
      ((∃ f, lower { decl with body := decl.body ++ more } r = .ok f) ↔
        (∀ s ∈ more, s.isSilent = true) ∨ Stmt.EndsReturning more) := by
  have haccepted : ∀ {decl : FunctionDecl} {b : Buffer}, Completes r decl (some ty) b →
      ((∃ f, decl.lower r = .ok f) ↔ Stmt.EndsReturning decl.body) := by
    intro decl b h
    refine ⟨fun ⟨f, hf⟩ => ?_, fun hbody => ⟨_, h.lowers_of_endsReturning hbody⟩⟩
    by_contra hbody
    rw [h.valueless_of_not_endsReturning hbody] at hf
    cases hf
  refine ⟨haccepted h, ⟨?_, h.valueless_of_not_endsReturning⟩, ?_⟩
  · intro hvoid hbody
    rw [h.lowers_of_endsReturning hbody] at hvoid
    cases hvoid
  · intro more b' hlower hmore
    rw [haccepted hmore, ((haccepted h).mp hlower).append_iff, or_comm]

def echo : FunctionDecl where
  name := "f"
  attributes := [.known .isPublic]
  params := [⟨"a", "uint8", {}⟩]
  returnType := some "uint8"
  body := [.ret (some (.name "a" {})) {}]
  span := {}

def echoLate : FunctionDecl :=
  { echo with body := echo.body ++ [.eval (.conversion "uint8" (.name "a" {}) {}) {}] }

theorem echo_completes : ∃ b, Completes .default echo (some (.uint 8)) b := by
  have hok : (echo.lower .default).isOk = true := by decide +kernel
  cases hf : echo.lower .default with
  | error e => simp [hf, Except.isOk, Except.toBool] at hok
  | ok f =>
    obtain ⟨result, locals, locals', b₀, b₁, b₂, hlowers, -⟩ := lower_eq_ok.mp hf
    have hcompletes := hlowers.completes
    obtain rfl : some (ScalarType.uint 8) = result := Except.ok.inj hcompletes.resultType
    exact ⟨b₁, hcompletes⟩

theorem echoLate_completes : ∃ b, Completes .default echoLate (some (.uint 8)) b := by
  have hparams : ((echoLate.params.foldlM param []).run { name := "f" }).1 =
      .ok [("a", .runtime (.uint 8) "%0")] := by decide +kernel
  have hbody : ((echoLate.body.foldlM (stmt .default (some (.uint 8)))
      [("a", .runtime (.uint 8) "%0")]).run
        ((echoLate.params.foldlM param []).run { name := "f" }).2).1 =
      .ok [("a", .runtime (.uint 8) "%0")] := by decide +kernel
  exact ⟨_, rfl, _, _, _, params_yields.mp (Emit.yields_of_fst hparams),
    body_yields.mp (Emit.yields_of_fst hbody)⟩

theorem lower_iff_endsReturning_echo :
    ∃ b b', Completes .default echo (some (.uint 8)) b ∧
      Completes .default echoLate (some (.uint 8)) b' ∧
      (∃ f, echo.lower .default = .ok f) ∧ ¬ ∃ f, echoLate.lower .default = .ok f := by
  obtain ⟨b, h⟩ := echo_completes
  obtain ⟨b', hlate⟩ := echoLate_completes
  obtain ⟨haccepted, -, hmore⟩ := lower_iff_endsReturning h
  have hecho : ∃ f, echo.lower .default = .ok f := haccepted.mpr ⟨[], _, [], rfl, rfl, by simp⟩
  refine ⟨b, b', h, hlate, hecho, fun hlower => ?_⟩
  rcases (hmore _ b' hecho hlate).mp hlower with hsilent | ⟨before, s, after, hsplit, hs, -⟩
  · exact absurd (hsilent _ (List.mem_singleton_self _)) (by decide)
  · rcases List.cons_eq_append_iff.mp hsplit with ⟨rfl, hcons⟩ | ⟨rest, rfl, hnil⟩
    · obtain ⟨rfl, -⟩ := List.cons.inj hcons
      cases hs
    · simp at hnil

/-- Both statements lower, and one of them returns. Still the declaration is reported as one
without a value, although the conversion can never run. -/
theorem echoLate_valueless :
    (∃ f, echo.lower .default = .ok f) ∧
      (∃ b, Completes .default echoLate (some (.uint 8)) b) ∧
      (∃ s ∈ echoLate.body, s.isReturn = true) ∧
      echoLate.lower .default =
        .error (.source ⟨.typeMismatch "void" "uint8" (some "return"), {}⟩) := by
  refine ⟨?_, echoLate_completes, ⟨_, List.mem_cons_self, rfl⟩, by decide +kernel⟩
  obtain ⟨b, h⟩ := echo_completes
  exact ⟨_, h.lowers_of_endsReturning ⟨[], _, [], rfl, rfl, by simp⟩⟩

end FunctionDecl

end ContractGuard
