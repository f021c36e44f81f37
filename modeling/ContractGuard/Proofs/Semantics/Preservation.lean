import ContractGuard.Proofs.Lowering.WellFormed
import ContractGuard.Proofs.Semantics.Simulation

/-!
# Lowering preserves meaning

Statement by statement the code does what evaluation does, and once one of them halts so
does the other: nodes after a return are never reached. The code of a whole declaration
therefore ends as its evaluation does, with the same value or the same abort code, and
neither gets stuck.
-/

namespace ContractGuard

open ScalarType

variable {result : Option ScalarType} {args : Arguments} {regs : Registers}
  {locals locals' : Locals} {env : Environment} {b b' b₀ b₁ b₂ : Buffer}

/-- The code goes on as evaluation does, or halts as evaluation does. -/
inductive Follows {α : Type} (args : Arguments) (b : Buffer) (P : Registers → α → Prop) :
    Except Halt α → Prop
  | continues {regs : Registers} {a : α} : b.Runs args regs → P regs a → Follows args b P (.ok a)
  | halts {halt : Halt} : b.Halts args halt → halt ≠ .stuck → Follows args b P (.error halt)

theorem Simulated.follows {α : Type} {P : Registers → α → Prop} {v : TypedValue}
    {x : Except Halt Cell} {f : Cell → Except Halt α} (h : Simulated args v b x)
    (hg : Grows result b b')
    (hf : ∀ regs c, b.Runs args regs → Represents regs v c → Follows args b' P (f c)) :
    Follows args b' P (x >>= f) := by
  cases h with
  | value hr hrep => exact hf _ _ hr hrep
  | aborted hhalts _ => exact .halts (hhalts.grow hg) (by simp)

namespace Lowering

theorem StmtLowers.follows {s : Stmt} (h : StmtLowers .default result locals s b locals' b')
    (ht : s.TableTyped) (hn : b.Numbered) (hs : locals.Settled b.nodes)
    (hr : b.Runs args regs) (hl : Models regs locals env) :
    Follows args b' (fun regs env => Models regs locals' env) (s.exec result env) := by
  cases h with
  | bind hfresh he =>
    obtain ⟨hg, _⟩ := he.grows result hs
    refine (he.simulates ht hn hs hr hl).follows (.refl : Grows result _ _) ?_
    intro regs₁ c hr₁ hrep
    simp only [hl.lookup_none hfresh, Option.isSome_none, Bool.false_eq_true, if_false]
    exact .continues hr₁ (.cons ⟨rfl, hrep⟩ (hl.keep (hr.keeps hr₁ hg hn)))
  | eval he =>
    obtain ⟨hg, _⟩ := he.grows result hs
    refine (he.simulates ht hn hs hr hl).follows (.refl : Grows result _ _) ?_
    intro regs₁ c hr₁ _
    exact .continues hr₁ (hl.keep (hr.keeps hr₁ hg hn))
  | bareReturn hnone =>
    simp only [Stmt.exec, if_pos hnone]
    exact .halts (hr.push_halts rfl) (by simp)
  | @valueReturn value span v id b b₁ b₂ he hq hm =>
    obtain ⟨_, hv⟩ := he.grows result hs
    obtain ⟨hty, _⟩ := requireReturnable_eq_ok.mp hq
    refine (he.simulates (ht value rfl) hn hs hr hl).follows (return_grows hm hv hq) ?_
    intro regs₁ c hr₁ hrep
    obtain ⟨regs₂, hr₂, hid⟩ := hm.runs hr₁ hrep
    have hall : result.all (· = c.ty) = true := by
      cases result with
      | none => rfl
      | some expected => simp [hrep.ty, hty expected rfl]
    rw [if_pos hall]
    refine .halts (hr₂.push_halts ?_) (by simp)
    refine run_cons_of_error ?_
    simp only [Node.step, Registers.read, hid]
    rfl

theorem BodyLowers.follows {body : List Stmt}
    (h : BodyLowers .default result body locals b locals' b') (ht : ∀ s ∈ body, s.TableTyped)
    (hn : b.Numbered) (hs : locals.Settled b.nodes) (hr : b.Runs args regs)
    (hl : Models regs locals env) :
    Follows args b' (fun regs env => Models regs locals' env)
      (body.foldlM (Stmt.exec result) env) := by
  induction h generalizing regs env with
  | nil => exact .continues hr hl
  | @cons s rest locals locals₁ locals₂ b b₁ b₂ hstmt hrest ih =>
    obtain ⟨hts, htrest⟩ := List.forall_mem_cons.mp ht
    obtain ⟨hg, hs₁⟩ := hstmt.grows hs
    obtain ⟨hg', _⟩ := hrest.grows hs₁
    rw [List.foldlM_cons]
    have hfollows := hstmt.follows hts hn hs hr hl
    cases hexec : s.exec result env with
    | ok env₁ =>
      rw [hexec] at hfollows
      cases hfollows with
      | continues hr₁ hl₁ => exact ih htrest (hg.numbered hn) hs₁ hr₁ hl₁
    | error halt =>
      -- the other statements still emit code, but it comes after the halt
      rw [hexec] at hfollows
      cases hfollows with
      | halts hhalts hstuck => exact .halts (hhalts.grow hg') hstuck

theorem ParamsLower.runs {params : List Param} (h : ParamsLower params locals b locals' b')
    (hargs : ∀ p ∈ params, ∀ ty, find? p.typeName = some ty → ty.Holds (args p.name))
    (hn : b.Numbered) (hr : b.Runs args regs) (hl : Models regs locals env) :
    ∃ regs' env', b'.Runs args regs' ∧ Models regs' locals' env' ∧
      params.foldlM (Param.bind args) env = .ok env' := by
  induction h generalizing regs env with
  | nil => exact ⟨regs, env, hr, hl, rfl⟩
  | @cons p rest ty locals locals' b b' hty hfresh _ ih =>
    obtain ⟨hp, hrest⟩ := List.forall_mem_cons.mp hargs
    have hg : Grows none b (b.push [.loadParam b.fresh p.name ty]) := .one .loadParam
    have hr₁ : (b.push [.loadParam b.fresh p.name ty]).Runs args
        (regs.write b.fresh (args p.name)) := hr.push rfl
    have hrep : Represents (regs.write b.fresh (args p.name)) (.runtime ty b.fresh)
        ⟨ty, args p.name⟩ := by
      refine ⟨rfl, (find?_eq_some hty).1, ?_, ?_, ?_⟩
      · intro hlit
        cases hlit
      · intro id hid
        obtain rfl : b.fresh = id := by simpa [TypedValue.runtime] using hid
        exact ⟨Function.update_self _ _ _, hp ty hty⟩
      · intro hnone
        cases hnone
    have hbind : p.bind args env = .ok ((p.name, ⟨ty, args p.name⟩) :: env) := by
      simp [Param.bind, hty, hl.lookup_none hfresh]
    have hl₁ : Models (regs.write b.fresh (args p.name)) ((p.name, .runtime ty b.fresh) :: locals)
        ((p.name, ⟨ty, args p.name⟩) :: env) := .cons ⟨rfl, hrep⟩ (hl.keep (hr.keeps hr₁ hg hn))
    obtain ⟨regs', env', hr', hl', hfold⟩ := ih hrest (hg.numbered hn) hr₁ hl₁
    refine ⟨regs', env', hr', hl', ?_⟩
    rw [List.foldlM_cons, hbind]
    exact hfold

theorem resultType_eval {decl : FunctionDecl} (h : resultType decl = .ok result) :
    decl.evalResult = .ok result := by
  simp only [resultType] at h
  simp only [FunctionDecl.evalResult]
  cases hr : decl.returnType with
  | none =>
    rw [hr] at h
    cases h
    rfl
  | some name =>
    rw [hr] at h
    obtain ⟨ty, hty, h⟩ := bind_eq_ok.mp h
    obtain rfl := pure_eq_ok.mp h
    simp only [typeNamed_eq_ok.mp hty]

theorem FunctionLowers.follows {decl : FunctionDecl}
    (h : FunctionLowers .default decl result locals locals' b₀ b₁ b₂) (ht : decl.TableTyped)
    (hargs : decl.Accepts args) :
    ∃ regs env, b₀.Runs args regs ∧ Models regs locals env ∧
      decl.exec args = (decl.body.foldlM (Stmt.exec result) env).map (fun _ =>
        if result = none then .returned none else .stuck) ∧
      Follows args b₁ (fun regs env => Models regs locals' env)
        (decl.body.foldlM (Stmt.exec result) env) := by
  obtain ⟨hg₀, _, hs₀⟩ := h.grows
  have hstart : Buffer.Runs { name := decl.name } args fun _ => none := rfl
  obtain ⟨regs, env, hr, hl, hfold⟩ := h.params.runs hargs rfl hstart .nil
  refine ⟨regs, env, hr, hl, ?_, h.body.follows ht (hg₀.numbered rfl) hs₀ hr hl⟩
  simp only [FunctionDecl.exec]
  rw [resultType_eval h.resultType, hfold]
  change (decl.body.foldlM (Stmt.exec result) env >>= fun _ => pure _) = _
  cases decl.body.foldlM (Stmt.exec result) env <;> rfl

theorem FunctionLowers.outcome_eq {decl : FunctionDecl}
    (h : FunctionLowers .default decl result locals locals' b₀ b₁ b₂) (ht : decl.TableTyped)
    (hargs : decl.Accepts args) :
    b₂.finish.outcome args = decl.outcome args ∧ decl.outcome args ≠ .stuck := by
  obtain ⟨_, env, _, _, hexec, hfollows⟩ := h.follows ht hargs
  have houtcome : ∀ halt, b₂.Halts args halt → b₂.finish.outcome args = halt := by
    intro halt hhalts
    simp only [CompiledFunction.outcome]
    rw [Buffer.finish_nodes, show run args (fun _ => none) b₂.nodes = .error halt from hhalts]
  cases hbody : decl.body.foldlM (Stmt.exec result) env with
  | error halt =>
    rw [hbody] at hexec hfollows
    cases hfollows with
    | halts hhalts hstuck =>
      have hdecl : decl.outcome args = halt := by
        simp only [FunctionDecl.outcome]
        rw [hexec]
        rfl
      rw [hdecl]
      exact ⟨houtcome halt (hhalts.grow h.closes.grows), hstuck⟩
  | ok env' =>
    rw [hbody] at hexec hfollows
    cases hfollows with
    | continues hr' _ =>
      cases h.closes with
      | ended _ =>
        -- code that ends in a return does not run through
        obtain ⟨value, hlast⟩ := h.closes.endsInReturn
        exact absurd hr' (run_ne_ok_of_ret hlast)
      | «open» _ hnone =>
        have hdecl : decl.outcome args = .returned none := by
          simp only [FunctionDecl.outcome]
          rw [hexec, hnone]
          rfl
        rw [hdecl]
        exact ⟨houtcome _ (hr'.push_halts rfl), by simp⟩

end Lowering

theorem lower_preserves_outcome {decl : FunctionDecl} {f : CompiledFunction}
    (h : decl.lower .default = .ok f) (ht : decl.TableTyped) (hargs : decl.Accepts args) :
    f.outcome args = decl.outcome args ∧ decl.outcome args ≠ .stuck := by
  obtain ⟨_, _, _, _, _, _, hf, rfl⟩ := Lowering.lower_eq_ok.mp h
  exact hf.outcome_eq ht hargs

def FunctionDecl.shareArguments : Arguments :=
  fun name => if name = "amount" then .number 200 else .number 7

theorem FunctionDecl.share_tableTyped : share.TableTyped := by
  simp [TableTyped, share, Stmt.TableTyped, Expr.TableTyped]
  decide

theorem FunctionDecl.share_accepts : share.Accepts shareArguments := by
  intro p hp ty hty
  have hamount : (ScalarType.uint 256).Holds (.number 200) :=
    ⟨⟨by decide, 200, by norm_num [ScalarType.uint]⟩, 200, rfl, by decide +kernel⟩
  have hrate : (ScalarType.uint 8).Holds (.number 7) :=
    ⟨⟨by decide, 7, by norm_num [ScalarType.uint]⟩, 7, rfl, by decide +kernel⟩
  rcases (by simpa [share] using hp : p = _ ∨ p = _) with rfl | rfl
  · have hfind : find? "uint256" = some (ScalarType.uint 256) := by decide
    obtain rfl : ScalarType.uint 256 = ty := Option.some.inj (hfind.symm.trans hty)
    exact hamount
  · have hfind : find? "uint8" = some (ScalarType.uint 8) := by decide
    obtain rfl : ScalarType.uint 8 = ty := Option.some.inj (hfind.symm.trans hty)
    exact hrate

theorem share_preserves_outcome :
    ∃ f, FunctionDecl.share.lower .default = .ok f ∧
      f.outcome FunctionDecl.shareArguments = .returned (some (.number 14)) := by
  obtain ⟨f, hf⟩ := FunctionDecl.share_lowers
  obtain ⟨h, _⟩ := lower_preserves_outcome hf FunctionDecl.share_tableTyped
    FunctionDecl.share_accepts
  refine ⟨f, hf, h.trans ?_⟩
  decide +kernel

end ContractGuard
