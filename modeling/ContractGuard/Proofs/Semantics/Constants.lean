import ContractGuard.Proofs.Lowering.Guarded
import ContractGuard.Proofs.Semantics.Preservation

/-!
# Compile-time constants

A literal with an id is computed twice, once while lowering and once by the code that
was emitted for it. The two agree: wherever execution gets to that code it runs through
it and leaves the value of the literal. A literal divisor passes its check, so code that
depends on no parameter never aborts.
-/

namespace ContractGuard

open ScalarType

variable {r : Registry} {result : Option ScalarType} {args : Arguments}
  {regs regs' : Registers} {locals locals' locals₁ locals₂ : Locals} {env : Environment}
  {b b' b₀ b₁ b₂ : Buffer} {v w : TypedValue}

theorem Simulated.eq_ok_of_literal {x : Except Halt Cell} (h : Simulated args v b x)
    (hl : v.isLiteral = true) : ∃ c, x = .ok c := by
  cases h with
  | value _ _ => exact ⟨_, rfl⟩
  | aborted _ hlit =>
    rw [hl] at hlit
    cases hlit

namespace Lowering

/-- Lowering an expression comes to lower a subexpression into some later buffer. -/
inductive Reaches (r : Registry) (locals : Locals) : Expr → Buffer → Expr → Buffer → Prop
  | here {e : Expr} {b : Buffer} : Reaches r locals e b e b
  | argument {target : String} {arg sub : Expr} {span : Span} {b b' : Buffer} :
      Reaches r locals arg b sub b' →
      Reaches r locals (.conversion target arg span) b sub b'
  | left {op : OperatorName} {left right sub : Expr} {span : Span} {b b' : Buffer} :
      Reaches r locals left b sub b' →
      Reaches r locals (.binary op left right span) b sub b'
  | right {op : OperatorName} {left right sub : Expr} {span : Span} {v : TypedValue}
      {b b₁ b' : Buffer} :
      (expr r locals left).Yields b v b₁ → Reaches r locals right b₁ sub b' →
      Reaches r locals (.binary op left right span) b sub b'

end Lowering

inductive FunctionDecl.Reaches (decl : FunctionDecl) (r : Registry) (locals : Locals)
    (sub : Expr) (b : Buffer) : Prop
  | through {result : Option ScalarType} {locals₀ : Locals} {b₀ b₁ : Buffer}
      {before after : List Stmt} {s : Stmt} {value : Expr} :
      Lowering.resultType decl = .ok result →
      (decl.params.foldlM Lowering.param []).Yields { name := decl.name } locals₀ b₀ →
      decl.body = before ++ s :: after →
      (before.foldlM (Lowering.stmt r result) locals₀).Yields b₀ locals b₁ →
      s.value? = some value → Lowering.Reaches r locals value b₁ sub b →
      FunctionDecl.Reaches decl r locals sub b

theorem Emit.Yields.unique {α : Type} {x : Emit α} {a a' : α} (h : x.Yields b a b₁)
    (h' : x.Yields b a' b₂) : a = a' ∧ b₁ = b₂ := by
  cases h.symm.trans h'
  exact ⟨rfl, rfl⟩

theorem Buffer.Runs.of_grows (h : b'.Runs args regs') (hg : Grows result b b') :
    ∃ regs, b.Runs args regs := by
  cases hr : run args (fun _ => none) b.nodes with
  | ok regs => exact ⟨regs, hr⟩
  | error halt => exact absurd h (Halts.not_runs (Halts.grow hr hg))

namespace Lowering

theorem Reaches.inside (result : Option ScalarType) {e sub : Expr} (h : Reaches r locals e b sub b₁)
    (he : ExprLowers r locals e b v b') (hs : locals.Settled b.nodes) (ht : e.TableTyped) :
    sub.TableTyped ∧ Grows result b b₁ ∧
      ∃ w b₂, ExprLowers r locals sub b₁ w b₂ ∧ Grows result b₂ b' := by
  induction h generalizing v b' with
  | here => exact ⟨ht, .refl, v, b', he, .refl⟩
  | argument _ ih =>
    cases he with
    | conversion harg hconv =>
      obtain ⟨hg₁, hv⟩ := harg.grows result hs
      obtain ⟨hg₂, _⟩ := Registry.convert_grows result hconv hv
      obtain ⟨hts, hg, w, b₂, hsub, hg'⟩ := ih harg hs ht
      exact ⟨hts, hg, w, b₂, hsub, hg'.trans hg₂⟩
  | left _ ih =>
    cases he with
    | binary hleft hright hguard =>
      obtain ⟨hg₁, hv⟩ := hleft.grows result hs
      obtain ⟨hg₂, hw⟩ := hright.grows result (hs.grow hg₁)
      obtain ⟨hg₃, _⟩ := guard_grows result hguard (hv.grow hg₂) hw
      obtain ⟨hts, hg, w, b₂, hsub, hg'⟩ := ih hleft hs ht.1
      exact ⟨hts, hg, w, b₂, hsub, (hg'.trans hg₂).trans hg₃⟩
  | right hyields _ ih =>
    cases he with
    | binary hleft hright hguard =>
      obtain ⟨rfl, rfl⟩ := hyields.unique (expr_yields.mpr hleft)
      obtain ⟨hg₁, hv⟩ := hleft.grows result hs
      obtain ⟨hg₂, hw⟩ := hright.grows result (hs.grow hg₁)
      obtain ⟨hg₃, _⟩ := guard_grows result hguard (hv.grow hg₂) hw
      obtain ⟨hts, hg, w, b₂, hsub, hg'⟩ := ih hright (hs.grow hg₁) ht.2
      exact ⟨hts, hg₁.trans hg, w, b₂, hsub, hg'.trans hg₃⟩

theorem BodyLowers.split {before after : List Stmt} {s : Stmt}
    (h : BodyLowers r result (before ++ s :: after) locals b locals' b') :
    ∃ locals₁ b₁ locals₂ b₂, BodyLowers r result before locals b locals₁ b₁ ∧
      StmtLowers r result locals₁ s b₁ locals₂ b₂ ∧
      BodyLowers r result after locals₂ b₂ locals' b' := by
  induction before generalizing locals b with
  | nil =>
    cases h with
    | cons hs hrest => exact ⟨_, _, _, _, .nil, hs, hrest⟩
  | cons t rest ih =>
    cases h with
    | cons ht hrest =>
      obtain ⟨locals₁, b₁, locals₂, b₂, hbefore, hs, hafter⟩ := ih hrest
      exact ⟨locals₁, b₁, locals₂, b₂, .cons ht hbefore, hs, hafter⟩

theorem StmtLowers.value {s : Stmt} {e : Expr} (h : StmtLowers r result locals s b locals' b')
    (he : s.value? = some e) (hs : locals.Settled b.nodes) :
    ∃ v b₁, ExprLowers r locals e b v b₁ ∧ Grows result b₁ b' := by
  cases h with
  | bind _ hexpr =>
    obtain rfl := Option.some.inj he
    exact ⟨_, _, hexpr, .refl⟩
  | eval hexpr =>
    obtain rfl := Option.some.inj he
    exact ⟨_, _, hexpr, .refl⟩
  | bareReturn _ => cases he
  | valueReturn hexpr hq hm =>
    obtain rfl := Option.some.inj he
    obtain ⟨_, hv⟩ := hexpr.grows result hs
    exact ⟨_, _, hexpr, return_grows hm hv hq⟩

theorem tableTyped_value {s : Stmt} {e : Expr} (h : s.TableTyped) (he : s.value? = some e) :
    e.TableTyped := by
  cases s with
  | bind name value span =>
    obtain rfl := Option.some.inj he
    exact h
  | eval value span =>
    obtain rfl := Option.some.inj he
    exact h
  | ret value span => exact h e he
  | unsupported span => cases he

structure Inside (args : Arguments) (locals : Locals) (sub : Expr) (b : Buffer)
    (code : List Node) : Prop where
  tableTyped : sub.TableTyped
  numbered : b.Numbered
  settled : locals.Settled b.nodes
  models : ∀ regs, b.Runs args regs → ∃ env, Models regs locals env
  lowers : ∃ w b', ExprLowers .default locals sub b w b' ∧ b'.nodes <+: code

theorem FunctionLowers.inside {decl : FunctionDecl} {sub : Expr}
    (h : FunctionLowers .default decl result locals₁ locals₂ b₀ b₁ b₂) (ht : decl.TableTyped)
    (hargs : decl.Accepts args) (hr : decl.Reaches .default locals sub b) :
    Inside args locals sub b b₂.nodes := by
  obtain @⟨result', locals₀, c₀, c₁, before, after, s, value, hresult, hparams, hbody, hbefore,
    hvalue, hsub⟩ := hr
  obtain rfl : result' = result := by simpa [hresult] using h.resultType
  obtain ⟨rfl, rfl⟩ := hparams.unique (params_yields.mpr h.params)
  obtain ⟨hg₀, _, hs₀⟩ := h.grows
  have hn₀ := hg₀.numbered rfl
  have hblocks := h.body
  rw [hbody] at hblocks
  obtain ⟨_, _, _, d₂, hbl, hsl, hal⟩ := hblocks.split
  obtain ⟨rfl, rfl⟩ := hbefore.unique (body_yields.mpr hbl)
  obtain ⟨hg₁, hs₁⟩ := hbl.grows hs₀
  obtain ⟨hg₂, hs₂⟩ := hsl.grows hs₁
  obtain ⟨hg₃, _⟩ := hal.grows hs₂
  have hts : ∀ t ∈ before ++ s :: after, t.TableTyped := hbody ▸ ht
  obtain ⟨v, d₁, hexpr, hgs⟩ := hsl.value hvalue hs₁
  have htv := tableTyped_value (hts s (by simp)) hvalue
  obtain ⟨htsub, hg, w, b', hlow, hg'⟩ := hsub.inside result' hexpr hs₁ htv
  -- the code of the subexpression is followed only by appended code
  have hend := (((hg'.trans hgs).trans hg₃).trans h.closes.grows).nodes_isPrefix
  refine ⟨htsub, (hg₁.trans hg).numbered hn₀, hs₁.grow hg, ?_, w, b', hlow, hend⟩
  intro regs hruns
  obtain ⟨regs₀, env₀, hr₀, hl₀, _, _⟩ := h.follows ht hargs
  obtain ⟨regs₁, hr₁⟩ := hruns.of_grows hg
  have hfollows := hbl.follows (fun t htm => hts t (List.mem_append_left _ htm)) hn₀ hs₀ hr₀ hl₀
  cases hexec : before.foldlM (Stmt.exec result') env₀ with
  | error halt =>
    rw [hexec] at hfollows
    cases hfollows with
    | halts hhalts _ => exact absurd hr₁ hhalts.not_runs
  | ok env =>
    rw [hexec] at hfollows
    cases hfollows with
    | continues hr₁' hl =>
      exact ⟨env, hl.keep (hr₁'.keeps hruns hg (hg₁.numbered hn₀))⟩

theorem Inside.value {sub : Expr} {code : List Node} (h : Inside args locals sub b code)
    (he : ExprLowers .default locals sub b w b') (hr : b.Runs args regs)
    (hl : w.isLiteral = true) :
    ∃ regs' c, b'.Runs args regs' ∧ Represents regs' w c := by
  obtain ⟨env, hm⟩ := h.models regs hr
  have hsim := he.simulates h.tableTyped h.numbered h.settled hr hm
  obtain ⟨c, hc⟩ := hsim.eq_ok_of_literal hl
  rw [hc] at hsim
  cases hsim with
  | value hr' hrep => exact ⟨_, c, hr', hrep⟩

theorem Inside.divisor {op : OperatorName} {left right : Expr} {span : Span} {code : List Node}
    (h : Inside args locals (.binary op left right span) b code)
    (hleft : ExprLowers .default locals left b v b₁)
    (hright : ExprLowers .default locals right b₁ w b₂) (hl : w.isLiteral = true)
    (hr : b₂.Runs args regs) : ∃ c, Represents regs w c := by
  obtain ⟨hg₁, _⟩ := hleft.grows none h.settled
  obtain ⟨hg₂, _⟩ := hright.grows none (h.settled.grow hg₁)
  -- what runs to the end of the operands has run to the start of each
  obtain ⟨regs₁, hr₁⟩ := hr.of_grows hg₂
  obtain ⟨regs₀, hr₀⟩ := hr₁.of_grows hg₁
  obtain ⟨env, hm⟩ := h.models regs₀ hr₀
  have hsim := hright.simulates h.tableTyped.2 (hg₁.numbered h.numbered) (h.settled.grow hg₁) hr₁
    (hm.keep (hr₀.keeps hr₁ hg₁ h.numbered))
  obtain ⟨c, hc⟩ := hsim.eq_ok_of_literal hl
  rw [hc] at hsim
  cases hsim with
  | value hr' hrep =>
    obtain rfl := hr.unique hr'
    exact ⟨c, hrep⟩

end Lowering

/-- The check of a literal divisor is the only one that a division adds to the code of its
operands, and it passes. -/
theorem ArithOp.Emits.check_passes {left right u : TypedValue} {folded : Option Payload}
    (h : ArithOp.div.Emits left right folded b u b') (hp : ArithOp.div.Planned left right folded)
    (hn : b.Numbered) (hsl : left.Settled b.nodes) (hsr : right.Settled b.nodes)
    (hrep : ∀ regs, b.Runs args regs → ∃ c, Represents regs right c)
    (hlit : right.isLiteral = true) {before after : List Node} {src : ValueId} {ty : ScalarType}
    {code : AbortCode} (hsplit : b'.nodes = before ++ .zeroCheck src ty code :: after)
    (hpre : b.nodes <+: before) (hrun : run args (fun _ => none) before = .ok regs) :
    (Node.zeroCheck src ty code).step args regs = .ok regs := by
  obtain @⟨lhs, rhs, b₁, b₂, range, hlhs, hrhs, hb⟩ := h
  obtain ⟨hg₁, _⟩ := hlhs.grows none hsl hp.legalLeft
  obtain ⟨hg₂, _⟩ := hrhs.grows none (hsr.grow hg₁) hp.legalRight
  rcases append_eq_append_cons hsplit with ⟨rest, hold, _⟩ | ⟨start, rfl, hnew⟩
  · -- the operands themselves only add constants
    obtain ⟨_, hchecks⟩ := hlhs.adds.trans hrhs.adds
    obtain ⟨more, rfl⟩ := hpre
    rw [hold] at hchecks
    simp [List.countP_cons, Node.isZeroCheck] at hchecks
  · have hstart : start = [] ∧ src = rhs := by
      rcases start with _ | ⟨first, _ | ⟨second, _ | ⟨third, start⟩⟩⟩ <;>
        simp_all [divisorCheck]
    obtain ⟨rfl, rfl⟩ := hstart
    rw [List.append_nil] at hrun
    have hr₂ : b₂.Runs args regs := hrun
    obtain ⟨regs₁, hr₁⟩ := hr₂.of_grows hg₂
    obtain ⟨regs₀, hr₀⟩ := hr₁.of_grows hg₁
    obtain ⟨c, hc⟩ := hrep regs₀ hr₀
    obtain ⟨regs₂, hr₂', hid⟩ := hrhs.runs hr₁ (hc.keep (hr₀.keeps hr₁ hg₁ hn))
    obtain rfl := hr₂.unique hr₂'
    have hk := isNumeric_iff.mp (hp.sameType ▸ hp.numeric)
    obtain ⟨q, hq⟩ := number_of_holds hk (hc.holds hp.legalRight)
    have hne := hp.divisor_ne_zero rfl hlit ((hc.literal hlit).trans hq)
    have hread : regs.readNumber src = .ok q := by simp [Registers.readNumber, hid, hq]
    simp [Node.step, hread, hne, bind, Except.bind]

def Expr.Mentions (name : String) : Expr → Prop
  | .name ident _ => ident = name
  | .conversion _ arg _ => arg.Mentions name
  | .binary _ left right _ => left.Mentions name ∨ right.Mentions name
  | _ => False

/-- Every local is a literal, unless it is a parameter. -/
def Locals.Constant (params : List Param) (locals : Locals) : Prop :=
  ∀ entry ∈ locals, (∀ p ∈ params, p.name ≠ entry.1) → entry.2.isLiteral = true

namespace Lowering

variable {params : List Param}

theorem ExprLowers.isLiteral {e : Expr} (h : ExprLowers r locals e b v b')
    (hl : locals.Constant params) (hm : ∀ p ∈ params, ¬ e.Mentions p.name) :
    v.isLiteral = true := by
  induction h with
  | literal => rfl
  | name hname =>
    refine hl _ (mem_of_lookup hname) ?_
    intro p hp he
    exact hm p hp he.symm
  | conversion _ hconv ih =>
    obtain ⟨_, _, _, _, hemits⟩ := Registry.convert_yields.mp hconv
    exact hemits.isLiteral.trans (ih hm)
  | binary _ _ hguard ihl ihr =>
    obtain ⟨_, _, _, hp, hemits⟩ := guard_yields.mp hguard
    rw [hemits.isLiteral hp, ihl (fun p hpm h => hm p hpm (Or.inl h)),
      ihr (fun p hpm h => hm p hpm (Or.inr h))]
    rfl

theorem ParamsLower.constant {rest : List Param} (h : ParamsLower rest locals b locals' b')
    (hsub : ∀ p ∈ rest, p ∈ params) (hl : locals.Constant params) : locals'.Constant params := by
  induction h with
  | nil => exact hl
  | cons _ _ _ ih =>
    obtain ⟨hp, hrest⟩ := List.forall_mem_cons.mp hsub
    refine ih hrest ?_
    intro entry he hne
    rcases List.mem_cons.mp he with rfl | he
    · exact absurd rfl (hne _ hp)
    · exact hl entry he hne

theorem StmtLowers.constant {s : Stmt} (h : StmtLowers r result locals s b locals' b')
    (hl : locals.Constant params)
    (hm : ∀ e, s.value? = some e → ∀ p ∈ params, ¬ e.Mentions p.name) :
    locals'.Constant params := by
  cases h with
  | bind _ hexpr =>
    intro entry he hne
    rcases List.mem_cons.mp he with rfl | he
    · exact hexpr.isLiteral hl (hm _ rfl)
    · exact hl entry he hne
  | eval _ | bareReturn _ | valueReturn _ _ _ => exact hl

theorem StmtLowers.not_aborted {s : Stmt} (h : StmtLowers .default result locals s b locals' b')
    (ht : s.TableTyped) (hn : b.Numbered) (hs : locals.Settled b.nodes)
    (hr : b.Runs args regs) (hl : Models regs locals env) (hc : locals.Constant params)
    (hm : ∀ e, s.value? = some e → ∀ p ∈ params, ¬ e.Mentions p.name) (code : AbortCode) :
    s.exec result env ≠ .error (.aborted code) := by
  cases h with
  | bind hfresh hexpr =>
    obtain ⟨c, he⟩ := (hexpr.simulates ht hn hs hr hl).eq_ok_of_literal
      (hexpr.isLiteral hc (hm _ rfl))
    simp [Stmt.exec, he, hl.lookup_none hfresh, Bind.bind, Except.bind]
  | eval hexpr =>
    obtain ⟨c, he⟩ := (hexpr.simulates ht hn hs hr hl).eq_ok_of_literal
      (hexpr.isLiteral hc (hm _ rfl))
    simp [Stmt.exec, he, Bind.bind, Except.bind]
  | bareReturn hnone => simp [Stmt.exec, hnone]
  | valueReturn hexpr _ _ =>
    obtain ⟨c, he⟩ :=
      (hexpr.simulates (ht _ rfl) hn hs hr hl).eq_ok_of_literal (hexpr.isLiteral hc (hm _ rfl))
    simp only [Stmt.exec, he, Bind.bind, Except.bind]
    split_ifs <;> simp

theorem BodyLowers.not_aborted {body : List Stmt}
    (h : BodyLowers .default result body locals b locals' b') (ht : ∀ s ∈ body, s.TableTyped)
    (hn : b.Numbered) (hs : locals.Settled b.nodes) (hr : b.Runs args regs)
    (hl : Models regs locals env) (hc : locals.Constant params)
    (hm : ∀ e ∈ body.filterMap Stmt.value?, ∀ p ∈ params, ¬ e.Mentions p.name)
    (code : AbortCode) : body.foldlM (Stmt.exec result) env ≠ .error (.aborted code) := by
  induction h generalizing regs env with
  | nil =>
    intro hexec
    cases hexec
  | @cons s rest locals locals₁ locals₂ b b₁ b₂ hstmt hrest ih =>
    obtain ⟨hts, htrest⟩ := List.forall_mem_cons.mp ht
    have hms : ∀ e, s.value? = some e → ∀ p ∈ params, ¬ e.Mentions p.name := by
      intro e he
      exact hm e (List.mem_filterMap.mpr ⟨s, List.mem_cons_self, he⟩)
    have hmrest : ∀ e ∈ rest.filterMap Stmt.value?, ∀ p ∈ params, ¬ e.Mentions p.name := by
      intro e he
      obtain ⟨t, htm, hte⟩ := List.mem_filterMap.mp he
      exact hm e (List.mem_filterMap.mpr ⟨t, List.mem_cons_of_mem _ htm, hte⟩)
    obtain ⟨hg, hs₁⟩ := hstmt.grows hs
    have hne := hstmt.not_aborted hts hn hs hr hl hc hms code
    have hfollows := hstmt.follows hts hn hs hr hl
    rw [List.foldlM_cons]
    cases hexec : s.exec result env with
    | ok env₁ =>
      rw [hexec] at hfollows
      cases hfollows with
      | continues hr₁ hl₁ =>
        exact ih htrest (hg.numbered hn) hs₁ hr₁ hl₁ (hstmt.constant hc hms) hmrest
    | error halt =>
      rw [hexec] at hne
      exact hne

theorem FunctionLowers.not_aborted {decl : FunctionDecl}
    (h : FunctionLowers .default decl result locals locals' b₀ b₁ b₂) (ht : decl.TableTyped)
    (hargs : decl.Accepts args)
    (hm : ∀ p ∈ decl.params, ∀ e ∈ decl.values, ¬ e.Mentions p.name) (code : AbortCode) :
    decl.outcome args ≠ .aborted code := by
  obtain ⟨regs, env, hr, hl, hexec, _⟩ := h.follows ht hargs
  obtain ⟨hg₀, _, hs₀⟩ := h.grows
  have hc : locals.Constant decl.params := by
    refine h.params.constant (fun p hp => hp) ?_
    intro entry he
    cases he
  have hne := h.body.not_aborted ht (hg₀.numbered rfl) hs₀ hr hl hc
    (fun e he p hp => hm p hp e he) code
  simp only [FunctionDecl.outcome]
  rw [hexec]
  cases hbody : decl.body.foldlM (Stmt.exec result) env with
  | error halt =>
    rw [hbody] at hne
    intro he
    exact hne (congrArg Except.error he)
  | ok env' =>
    simp only [Except.map]
    split_ifs <;> simp

end Lowering

structure ConstantsAgree (decl : FunctionDecl) (args : Arguments) (f : CompiledFunction) :
    Prop where
  literals : ∀ locals sub b w id b', decl.Reaches .default locals sub b →
    (Lowering.expr .default locals sub).Yields b w b' → w.isLiteral = true →
    w.operand = some id →
    b.nodes <+: b'.nodes ∧ b'.nodes <+: f.nodes ∧ ∀ regs, b.Runs args regs →
      ∃ regs', b'.Runs args regs' ∧ regs' id = some w.value.datum ∧ w.ty.Holds w.value.datum
  divisors : ∀ locals left right span b v b₁ w b₂ u b₃,
    decl.Reaches .default locals (.binary (.known .div) left right span) b →
    (Lowering.expr .default locals left).Yields b v b₁ →
    (Lowering.expr .default locals right).Yields b₁ w b₂ → w.isLiteral = true →
    (guard (.known .div) v w span).Yields b₂ u b₃ →
    b₂.nodes <+: b₃.nodes ∧ b₃.nodes <+: f.nodes ∧ ∀ before src ty code after regs,
      b₃.nodes = before ++ .zeroCheck src ty code :: after → b₂.nodes <+: before →
      run args (fun _ => none) before = .ok regs →
      (Node.zeroCheck src ty code).step args regs = .ok regs
  closed : (∀ p ∈ decl.params, ∀ e ∈ decl.values, ¬ e.Mentions p.name) →
    ∀ code, f.outcome args ≠ .aborted code

theorem lower_constantsAgree {decl : FunctionDecl} {f : CompiledFunction}
    (h : decl.lower .default = .ok f) (ht : decl.TableTyped) (hargs : decl.Accepts args) :
    ConstantsAgree decl args f := by
  obtain ⟨result, locals, locals', b₀, b₁, b₂, hf, rfl⟩ := Lowering.lower_eq_ok.mp h
  refine ⟨?_, ?_, ?_⟩
  · intro locals sub b w id b' hreach hyields hlit hop
    have hin := hf.inside ht hargs hreach
    obtain ⟨w', b'', hlow, hpre⟩ := hin.lowers
    obtain ⟨rfl, rfl⟩ := hyields.unique (Lowering.expr_yields.mpr hlow)
    obtain ⟨hg, _⟩ := hlow.grows none hin.settled
    refine ⟨hg.nodes_isPrefix, hpre, ?_⟩
    intro regs hr
    obtain ⟨regs', c, hr', hrep⟩ := hin.value hlow hr hlit
    obtain ⟨hreg, hholds⟩ := hrep.held id hop
    rw [hrep.literal hlit]
    exact ⟨regs', hr', hreg, hholds⟩
  · intro locals left right span b v b₁ w b₂' u b₃ hreach hleft hright hlit hguard
    have hin := hf.inside ht hargs hreach
    obtain ⟨u', b₃', hlow, hpre⟩ := hin.lowers
    cases hlow with
    | binary hleft' hright' hguard' =>
      obtain ⟨rfl, rfl⟩ := hleft.unique (Lowering.expr_yields.mpr hleft')
      obtain ⟨rfl, rfl⟩ := hright.unique (Lowering.expr_yields.mpr hright')
      obtain ⟨rfl, rfl⟩ := hguard.unique hguard'
      obtain ⟨hg₁, hv⟩ := hleft'.grows none hin.settled
      obtain ⟨hg₂, hw⟩ := hright'.grows none (hin.settled.grow hg₁)
      obtain ⟨hg₃, _⟩ := guard_grows none hguard (hv.grow hg₂) hw
      obtain ⟨op, folded, hop, hp, hemits⟩ := guard_yields.mp hguard
      cases hop
      refine ⟨hg₃.nodes_isPrefix, hpre, ?_⟩
      intro before src ty code after regs hsplit hprefix hrun
      exact hemits.check_passes hp (hg₂.numbered (hg₁.numbered hin.numbered)) (hv.grow hg₂) hw
        (fun regs hr => hin.divisor hleft' hright' hlit hr) hlit hsplit hprefix hrun
  · intro hm code
    rw [(hf.outcome_eq ht hargs).1]
    exact hf.not_aborted ht hargs hm code

theorem share_constantsAgree :
    ∃ f, FunctionDecl.share.lower .default = .ok f ∧
      ConstantsAgree .share FunctionDecl.shareArguments f ∧
      ∃ locals sub b b', FunctionDecl.share.Reaches .default locals sub b ∧
        (Lowering.expr .default locals sub).Yields b
          ⟨.uint 256, .int 100, true, some (.ofIndex 4)⟩ b' := by
  obtain ⟨f, hf⟩ := FunctionDecl.share_lowers
  have hresult : Lowering.resultType .share = .ok (some (.uint 256)) := rfl
  refine ⟨f, hf, lower_constantsAgree hf FunctionDecl.share_tableTyped FunctionDecl.share_accepts,
    _, _, _, _, .through hresult rfl (rfl : _ = [] ++ _ :: _) rfl rfl .here, rfl⟩

end ContractGuard
