import ContractGuard.Proofs.Code.Growth
import ContractGuard.Proofs.Lowering.Derivation

/-!
# Lowering grows guarded code

Every value that a lowering hands around is a bare literal or sits in a settled id of
its own type. Under this invariant of the locals each step of the lowering appends
whole blocks, so a finished lowering is a growth from the empty buffer.
-/

namespace ContractGuard

variable {r : Registry} {result : Option ScalarType} {locals locals' : Locals}
  {b b' b₀ b₁ b₂ : Buffer}

namespace TypedValue

/-- A bare literal, or a value that sits in a settled id. -/
def Settled (code : List Node) (v : TypedValue) : Prop :=
  match v.operand with
  | some id => ContractGuard.Settled code id v.ty
  | none => v.isLiteral = true

theorem settled_literal (code : List Node) (ty : ScalarType) (value : Payload) :
    (literal ty value).Settled code := rfl

theorem settled_runtime {code : List Node} {ty : ScalarType} {id : ValueId}
    (h : ContractGuard.Settled code id ty) : (runtime ty id).Settled code := h

theorem Settled.legal_of_bare {code : List Node} {v : TypedValue} (h : v.Settled code)
    (hl : v.Legal) (ho : v.operand = none) : v.ty.literalInRange v.value = .ok true := by
  apply hl
  simpa [Settled, ho] using h

theorem Settled.grow {v : TypedValue} (h : v.Settled b.nodes) (hg : Grows result b b') :
    v.Settled b'.nodes := by
  simp only [Settled] at h ⊢
  cases ho : v.operand with
  | none => simpa only [ho] using h
  | some id => exact hg.settled (by simpa only [ho] using h)

end TypedValue

def Locals.Settled (code : List Node) (locals : Locals) : Prop :=
  ∀ entry ∈ locals, TypedValue.Settled code entry.2

theorem Locals.Settled.grow (h : locals.Settled b.nodes) (hg : Grows result b b') :
    locals.Settled b'.nodes :=
  fun entry he => (h entry he).grow hg

theorem Locals.Settled.cons {code : List Node} {name : String} {v : TypedValue}
    (hv : v.Settled code) (h : locals.Settled code) :
    Locals.Settled code ((name, v) :: locals) := by
  intro entry he
  rcases List.mem_cons.mp he with rfl | he
  · exact hv
  · exact h entry he

theorem mem_of_lookup {name : String} {v : TypedValue} (h : locals.lookup name = some v) :
    (name, v) ∈ locals := by
  induction locals with
  | nil => simp at h
  | cons entry rest ih =>
    obtain ⟨key, w⟩ := entry
    rw [List.lookup_cons] at h
    split at h
    · next hk =>
      simp_all
    · exact List.mem_cons_of_mem _ (ih h)

theorem Locals.Settled.lookup {code : List Node} {name : String} {v : TypedValue}
    (h : locals.Settled code) (hl : locals.lookup name = some v) : v.Settled code :=
  h _ (mem_of_lookup hl)

theorem Emit.Holds.grows (result : Option ScalarType) {v : TypedValue} {id : ValueId}
    (h : Emit.Holds v b id b') (hv : v.Settled b.nodes) (hl : v.Legal) :
    Grows result b b' ∧ ContractGuard.Settled b'.nodes id v.ty := by
  cases h with
  | held ho =>
    have hs : ContractGuard.Settled b.nodes id v.ty := by simpa [TypedValue.Settled, ho] using hv
    exact ⟨.refl, hs⟩
  | constant ho =>
    have hlegal := hv.legal_of_bare hl ho
    exact ⟨.one (.const hlegal), _, List.mem_append_right _ (List.mem_singleton_self _), rfl⟩

theorem ConversionEntry.settled_result {entry : ConversionEntry} {v : TypedValue}
    {converted : Converted} {code : List Node} {dest : ValueId}
    (h : Settled code dest entry.target) : (entry.result v converted dest).Settled code := by
  simp only [ConversionEntry.result]
  split_ifs <;> exact h

theorem ConversionEntry.Emits.grows (result : Option ScalarType) {entry : ConversionEntry}
    {v w : TypedValue} {converted : Converted} (h : entry.Emits v converted b w b')
    (hv : v.Settled b.nodes) (hl : v.Legal) : Grows result b b' ∧ w.Settled b'.nodes := by
  cases h with
  | same hh ht hr =>
    obtain ⟨hg, hs⟩ := hh.grows result hv hl
    refine ⟨hg.step (.clamp (ht ▸ hs) hr), entry.settled_result ?_⟩
    exact ⟨_, List.mem_append_right _ (List.mem_singleton_self _), rfl⟩
  | changed hh ht hr =>
    obtain ⟨hg, hs⟩ := hh.grows result hv hl
    refine ⟨hg.step (.convert hs ht hr), entry.settled_result ?_⟩
    exact ⟨_, List.mem_append_right _ (List.mem_cons_of_mem _ (List.mem_singleton_self _)), rfl⟩

theorem ArithOp.settled_result {ty : ScalarType} {folded : Option Payload} {code : List Node}
    {dest : ValueId} (h : Settled code dest ty) :
    (ArithOp.result ty folded dest).Settled code := by
  cases folded <;> exact h

theorem ArithOp.Emits.grows (result : Option ScalarType) {op : ArithOp}
    {left right w : TypedValue} {folded : Option Payload}
    (h : op.Emits left right folded b w b') (hp : op.Planned left right folded)
    (hl : left.Settled b.nodes) (hr : right.Settled b.nodes) :
    Grows result b b' ∧ w.Settled b'.nodes := by
  obtain @⟨lhs, rhs, b₁, b₂, range, hlhs, hrhs, hb⟩ := h
  obtain ⟨hg₁, hs₁⟩ := hlhs.grows result hl hp.legalLeft
  obtain ⟨hg₂, hs₂⟩ := hrhs.grows result (hr.grow hg₁) hp.legalRight
  rw [← hp.sameType] at hs₂
  refine ⟨(hg₁.trans hg₂).step (.binary (hg₂.settled hs₁) hs₂ hp.numeric hb), settled_result ?_⟩
  exact ⟨.clampTo (.ofIndex (b₂.nextValue + 1)) b₂.fresh left.ty range, by simp, rfl⟩

theorem Registry.convert_grows (result : Option ScalarType) {target : String} {span : Span}
    {v w : TypedValue} (h : (r.convert v target span).Yields b w b') (hv : v.Settled b.nodes) :
    Grows result b b' ∧ w.Settled b'.nodes := by
  obtain ⟨entry, converted, _, hp, he⟩ := convert_yields.mp h
  exact he.grows result hv hp.legal

theorem guard_grows (result : Option ScalarType) {op : OperatorName} {span : Span}
    {left right w : TypedValue} (h : (guard op left right span).Yields b w b')
    (hl : left.Settled b.nodes) (hr : right.Settled b.nodes) :
    Grows result b b' ∧ w.Settled b'.nodes := by
  obtain ⟨known, folded, _, hp, he⟩ := guard_yields.mp h
  exact he.grows result hp hl hr

namespace Lowering

theorem ExprLowers.grows (result : Option ScalarType) {e : Expr} {v : TypedValue}
    (h : ExprLowers r locals e b v b') (hl : locals.Settled b.nodes) :
    Grows result b b' ∧ v.Settled b'.nodes := by
  induction h with
  | literal => exact ⟨.refl, TypedValue.settled_literal _ _ _⟩
  | name hn => exact ⟨.refl, hl.lookup hn⟩
  | conversion _ hc ih =>
    obtain ⟨hg, hv⟩ := ih hl
    obtain ⟨hg', hw⟩ := Registry.convert_grows result hc hv
    exact ⟨hg.trans hg', hw⟩
  | binary _ _ hg ihl ihr =>
    obtain ⟨hgl, hv⟩ := ihl hl
    obtain ⟨hgr, hw⟩ := ihr (hl.grow hgl)
    obtain ⟨hg', hu⟩ := guard_grows result hg (hv.grow hgr) hw
    exact ⟨(hgl.trans hgr).trans hg', hu⟩

theorem requireReturnable_eq_ok {v : TypedValue} {span : Span} {u : Unit} :
    requireReturnable result v span = .ok u ↔
      (∀ expected, result = some expected → v.ty = expected) ∧ (v.operand = none → v.Legal) := by
  have hr : ∀ u : Unit, requireResult result v span = .ok u ↔
      ∀ expected, result = some expected → v.ty = expected := by
    intro u
    cases result <;> simp [requireResult]
  simp only [requireReturnable, bind_eq_ok, hr]
  cases ho : v.operand <;> simp [TypedValue.requireLegal_eq_ok, pure_eq_ok]

theorem return_grows {v : TypedValue} {id : ValueId} {span : Span}
    (hm : Emit.Holds v b id b') (hv : v.Settled b.nodes)
    (hq : requireReturnable result v span = .ok ()) :
    Grows result b (b'.push [.ret (some id)]) := by
  obtain ⟨hty, hlegal⟩ := requireReturnable_eq_ok.mp hq
  have hm' : Grows result b b' ∧ Settled b'.nodes id v.ty := by
    cases ho : v.operand with
    | none => exact hm.grows result hv (hlegal ho)
    | some k =>
      cases hm with
      | held hk => exact ⟨.refl, by simpa [TypedValue.Settled, hk] using hv⟩
      | constant hk => simp [ho] at hk
  exact hm'.1.step (.valueReturn hm'.2 hty)

theorem StmtLowers.grows {s : Stmt} (h : StmtLowers r result locals s b locals' b')
    (hl : locals.Settled b.nodes) : Grows result b b' ∧ locals'.Settled b'.nodes := by
  cases h with
  | bind _ he =>
    obtain ⟨hg, hv⟩ := he.grows result hl
    exact ⟨hg, .cons hv (hl.grow hg)⟩
  | eval he =>
    obtain ⟨hg, _⟩ := he.grows result hl
    exact ⟨hg, hl.grow hg⟩
  | bareReturn hn =>
    have hg := Grows.one (.bareReturn hn : Block result b.nodes b.nextValue _)
    exact ⟨hg, hl.grow hg⟩
  | valueReturn he hq hm =>
    obtain ⟨hg, hv⟩ := he.grows result hl
    have hgrow := hg.trans (return_grows hm hv hq)
    exact ⟨hgrow, hl.grow hgrow⟩

theorem BodyLowers.grows {body : List Stmt} (h : BodyLowers r result body locals b locals' b')
    (hl : locals.Settled b.nodes) : Grows result b b' ∧ locals'.Settled b'.nodes := by
  induction h with
  | nil => exact ⟨.refl, hl⟩
  | cons hs _ ih =>
    obtain ⟨hg, hl₁⟩ := hs.grows hl
    obtain ⟨hg', hl₂⟩ := ih hl₁
    exact ⟨hg.trans hg', hl₂⟩

theorem ParamsLower.grows (result : Option ScalarType) {params : List Param}
    (h : ParamsLower params locals b locals' b') (hl : locals.Settled b.nodes) :
    Grows result b b' ∧ locals'.Settled b'.nodes := by
  induction h with
  | nil => exact ⟨.refl, hl⟩
  | @cons p rest ty locals locals' b b' _ _ _ ih =>
    have hg : Grows result b (b.push [.loadParam b.fresh p.name ty]) := .one .loadParam
    have hs : Settled (b.push [.loadParam b.fresh p.name ty]).nodes b.fresh ty :=
      ⟨_, List.mem_append_right _ (List.mem_singleton_self _), rfl⟩
    obtain ⟨hg', hl'⟩ := ih (.cons (TypedValue.settled_runtime hs) (hl.grow hg))
    exact ⟨hg.trans hg', hl'⟩

theorem Closes.grows (h : Closes result b b') : Grows result b b' := by
  cases h with
  | ended _ => exact .refl
  | «open» _ hn => exact .one (.bareReturn hn)

theorem FunctionLowers.grows {decl : FunctionDecl}
    (h : FunctionLowers r decl result locals locals' b₀ b₁ b₂) :
    Grows result { name := decl.name } b₀ ∧ Grows result b₀ b₂ ∧ locals.Settled b₀.nodes := by
  have hnil : Locals.Settled ({ name := decl.name } : Buffer).nodes [] := by
    intro entry he
    simp at he
  obtain ⟨hg₀, hl₀⟩ := h.params.grows result hnil
  obtain ⟨hg₁, _⟩ := h.body.grows hl₀
  exact ⟨hg₀, hg₁.trans h.closes.grows, hl₀⟩

end Lowering

end ContractGuard
