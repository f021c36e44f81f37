import ContractGuard.Proofs.Lowering.Growth
import Mathlib.Algebra.GroupWithZero.Nat

/-!
# No unchecked value escapes

In lowered code a raw result is clamped by the next node and read by nothing else,
every clamp has the bounds of the range table, a divisor is checked just before the
division, and constants are legal. The clamps and the checks of divisors are counted
by the conversions and operations of the body.
-/

namespace ContractGuard

variable {r : Registry} {result : Option ScalarType} {code block : List Node} {n : ℕ}
  {b b' : Buffer}

/-- A raw result is clamped by the next node, its only reader. -/
def RawClamped (code : List Node) : Prop :=
  ∀ before node after dest ty, code = before ++ node :: after → node.raw? = some (dest, ty) →
    ∃ out range rest, after = .clamp out dest range.lower range.upper ty .rangeViolation :: rest ∧
      ty.bounds = .ok range ∧ ∀ other ∈ before ++ node :: rest, dest ∉ other.reads

theorem mem_dests_of_reads
    (ht : EachNode (fun before node => node.WellTyped result before) code) {node : Node}
    (hm : node ∈ code) {id : ValueId} (hr : id ∈ node.reads) : id ∈ dests code := by
  obtain ⟨before, after, rfl⟩ := List.append_of_mem hm
  have hd := (ht before node after rfl).mem_dests_of_reads hr
  rw [dests_append]
  exact List.mem_append_left _ hd

theorem ne_of_settled_of_raw (hn : (dests code).Nodup) {node : Node} (hm : node ∈ code)
    {dest id : ValueId} {ty ty' : ScalarType} (hr : node.raw? = some (dest, ty))
    (hs : Settled code id ty') : id ≠ dest := by
  intro he
  obtain ⟨other, hm', hs'⟩ := hs
  have hd := Node.dest?_of_defines (Node.defines_of_raw? hr)
  have hd' := Node.dest?_of_defines (Node.defines_of_settles hs')
  have heq : other = node := eq_of_dest?_eq hn hm' hm hd' (he ▸ hd)
  subst heq
  simp [Node.settles, hr] at hs'

theorem BlockNode.reads {start after : List Node} {node : Node}
    (h : BlockNode result code n start node after) {id : ValueId} (hr : id ∈ node.reads) :
    (∃ ty, Settled code id ty) ∨ id = .ofIndex n := by
  cases h with
  | const _ | loadParam | bareReturn _ => simp [Node.reads] at hr
  | clamp hs _ | convert hs _ _ | zeroCheck hs | valueReturn hs _ =>
    obtain rfl := (by simpa [Node.reads] using hr : id = _)
    exact Or.inl ⟨_, hs⟩
  | convertClamp _ | binaryClamp _ => exact Or.inr (by simpa [Node.reads] using hr)
  | binary hl hr' _ _ =>
    rcases (by simpa [Node.reads] using hr : id = _ ∨ id = _) with rfl | rfl
    · exact Or.inl ⟨_, hl⟩
    · exact Or.inl ⟨_, hr'⟩

theorem BlockNode.raw {start after : List Node} {node : Node}
    (h : BlockNode result code n start node after) {dest : ValueId} {ty : ScalarType}
    (hr : node.raw? = some (dest, ty)) :
    dest = .ofIndex n ∧ ∃ out range,
      after = [.clampTo out dest ty range] ∧ ty.bounds = .ok range ∧
      ∀ other ∈ start ++ [node], ∀ id ∈ other.reads, ∃ ty', Settled code id ty' := by
  cases h with
  | convert hs _ hb =>
    obtain ⟨rfl, rfl⟩ := (by simpa [Node.raw?] using hr : _ = dest ∧ _ = ty)
    refine ⟨rfl, _, _, rfl, hb, ?_⟩
    simpa [Node.reads] using ⟨_, hs⟩
  | @binary op left right _ range hl hr' _ hb =>
    obtain ⟨rfl, rfl⟩ := (by simpa [Node.raw?] using hr : _ = dest ∧ _ = ty)
    refine ⟨rfl, _, _, rfl, hb, ?_⟩
    intro other ho id hid
    rcases List.mem_append.mp ho with ho | ho
    · simp only [ArithOp.divisorCheck] at ho
      split_ifs at ho
      · obtain rfl := List.mem_singleton.mp ho
        obtain rfl : id = right := by simpa [Node.reads] using hid
        exact ⟨_, hr'⟩
      · simp at ho
    · obtain rfl := List.mem_singleton.mp ho
      rcases (by simpa [Node.reads] using hid : id = left ∨ id = right) with rfl | rfl
      · exact ⟨_, hl⟩
      · exact ⟨_, hr'⟩
  | const _ | loadParam | clamp _ _ | convertClamp _ | zeroCheck _ | binaryClamp _ | bareReturn _
  | valueReturn _ _ => simp [Node.raw?] at hr

theorem Block.rawClamped (h : Block result b.nodes b.nextValue block) (hn : b.Numbered)
    (ht : EachNode (fun before node => node.WellTyped result before) b.nodes)
    (hc : RawClamped b.nodes) : RawClamped (b.push block).nodes := by
  have hfresh : ValueId.ofIndex b.nextValue ∉ dests b.nodes := hn.fresh_not_mem (Nat.le_refl _)
  intro before node after dest ty hs hraw
  rcases append_eq_append_cons hs with ⟨rest, hold, rfl⟩ | ⟨start, rfl, hnew⟩
  · -- an old raw result: the new nodes read settled ids or the id that is being defined
    obtain ⟨out, range, rest', rfl, hb, hreads⟩ := hc before node rest dest ty hold hraw
    refine ⟨out, range, rest' ++ block, rfl, hb, ?_⟩
    have hm : node ∈ b.nodes := by simp [hold]
    have hdest : dest ∈ dests b.nodes :=
      List.mem_filterMap.mpr ⟨node, hm, Node.dest?_of_defines (Node.defines_of_raw? hraw)⟩
    intro other ho hread
    rw [← List.cons_append, ← List.append_assoc] at ho
    rcases List.mem_append.mp ho with ho | ho
    · exact hreads other ho hread
    · obtain ⟨start, after, hsplit⟩ := List.append_of_mem ho
      rcases (h.node hsplit).reads hread with ⟨ty', hset⟩ | rfl
      · exact ne_of_settled_of_raw hn.nodup hm hraw hset rfl
      · exact hfresh hdest
  · -- a new raw result: nothing before it can read an id that is only now handed out
    obtain ⟨rfl, out, range, rfl, hb, hreads⟩ := (h.node hnew).raw hraw
    refine ⟨out, range, [], rfl, hb, ?_⟩
    intro other ho hread
    rw [List.append_assoc] at ho
    rcases List.mem_append.mp ho with ho | ho
    · exact hfresh (mem_dests_of_reads ht ho hread)
    · obtain ⟨ty', hset⟩ := hreads other ho _ hread
      exact hfresh hset.defined.mem_dests

theorem Grows.rawClamped (h : Grows result b b') (hn : b.Numbered)
    (ht : EachNode (fun before node => node.WellTyped result before) b.nodes)
    (hc : RawClamped b.nodes) : RawClamped b'.nodes := by
  induction h with
  | refl => exact hc
  | step hg hb ih => exact hb.rawClamped (hg.numbered hn) (hg.wellTyped ht) ih

namespace Expr

def guards : Expr → ℕ
  | conversion _ arg _ => arg.guards + 1
  | binary _ left right _ => left.guards + right.guards + 1
  | _ => 0

def divisions : Expr → ℕ
  | conversion _ arg _ => arg.divisions
  | binary op left right _ =>
    left.divisions + right.divisions + if op = .known .div then 1 else 0
  | _ => 0

end Expr

def Stmt.value? : Stmt → Option Expr
  | bind _ value _ => some value
  | eval value _ => some value
  | ret value _ => value
  | unsupported _ => none

def FunctionDecl.values (decl : FunctionDecl) : List Expr := decl.body.filterMap Stmt.value?

def Adds (b b' : Buffer) (clamps checks : ℕ) : Prop :=
  b'.nodes.countP Node.isClamp = b.nodes.countP Node.isClamp + clamps ∧
    b'.nodes.countP Node.isZeroCheck = b.nodes.countP Node.isZeroCheck + checks

namespace Adds

variable {b₁ : Buffer} {clamps clamps' checks checks' : ℕ}

theorem refl : Adds b b 0 0 := ⟨rfl, rfl⟩

theorem trans (h : Adds b b₁ clamps checks) (h' : Adds b₁ b' clamps' checks') :
    Adds b b' (clamps + clamps') (checks + checks') := by
  obtain ⟨hc, hz⟩ := h
  obtain ⟨hc', hz'⟩ := h'
  constructor <;> omega

theorem push (b : Buffer) (block : List Node) :
    Adds b (b.push block) (block.countP Node.isClamp) (block.countP Node.isZeroCheck) := by
  simp [Adds]

end Adds

theorem Emit.Holds.adds {v : TypedValue} {id : ValueId} (h : Emit.Holds v b id b') :
    Adds b b' 0 0 := by
  cases h with
  | held _ => exact .refl
  | constant _ => exact .push b _

theorem ConversionEntry.Emits.adds {entry : ConversionEntry} {v w : TypedValue}
    {converted : Converted} (h : entry.Emits v converted b w b') : Adds b b' 1 0 := by
  cases h with
  | same hh _ _ => exact hh.adds.trans (.push _ _)
  | changed hh _ _ => exact hh.adds.trans (.push _ _)

theorem ArithOp.Emits.adds {op : ArithOp} {left right w : TypedValue} {folded : Option Payload}
    (h : op.Emits left right folded b w b') : Adds b b' 1 (if op = .div then 1 else 0) := by
  obtain @⟨lhs, rhs, b₁, b₂, range, hl, hr, _⟩ := h
  have hp := (hl.adds.trans hr.adds).trans (.push b₂ (op.divisorCheck rhs left.ty ++
    [.binary b₂.fresh op lhs rhs left.ty,
      .clampTo (.ofIndex (b₂.nextValue + 1)) b₂.fresh left.ty range]))
  by_cases ho : op = .div
  · simpa [ArithOp.divisorCheck, ho, List.countP_cons, Node.isClamp, Node.isZeroCheck] using hp
  · simpa [ArithOp.divisorCheck, ho, List.countP_cons, Node.isClamp, Node.isZeroCheck] using hp

namespace Lowering

variable {locals locals' : Locals} {b₀ b₁ b₂ : Buffer}

theorem ExprLowers.adds {e : Expr} {v : TypedValue} (h : ExprLowers r locals e b v b') :
    Adds b b' e.guards e.divisions := by
  induction h with
  | literal | name _ => exact .refl
  | conversion _ hc ih =>
    obtain ⟨_, _, _, _, he⟩ := Registry.convert_yields.mp hc
    exact ih.trans he.adds
  | binary _ _ hg ihl ihr =>
    obtain ⟨op, _, rfl, _, he⟩ := guard_yields.mp hg
    simpa [Expr.guards, Expr.divisions] using (ihl.trans ihr).trans he.adds

theorem StmtLowers.adds {s : Stmt} (h : StmtLowers r result locals s b locals' b') :
    Adds b b' (s.value?.elim 0 Expr.guards) (s.value?.elim 0 Expr.divisions) := by
  cases h with
  | bind _ he => exact he.adds
  | eval he => exact he.adds
  | bareReturn _ => exact .push b _
  | valueReturn he _ hm => exact (he.adds.trans hm.adds).trans (.push _ _)

theorem BodyLowers.adds {body : List Stmt} (h : BodyLowers r result body locals b locals' b') :
    Adds b b' ((body.filterMap Stmt.value?).map Expr.guards).sum
      ((body.filterMap Stmt.value?).map Expr.divisions).sum := by
  induction h with
  | nil => exact .refl
  | @cons s _ _ _ _ _ _ _ hs _ ih =>
    have hadds := hs.adds.trans ih
    cases hv : s.value? with
    | none => simpa [hv] using hadds
    | some e => simpa [hv] using hadds

theorem ParamsLower.adds {params : List Param} (h : ParamsLower params locals b locals' b') :
    Adds b b' 0 0 := by
  induction h with
  | nil => exact .refl
  | cons _ _ _ ih => exact (Adds.push _ _).trans ih

theorem Closes.adds (h : Closes result b b') : Adds b b' 0 0 := by
  cases h with
  | ended _ => exact .refl
  | «open» _ _ => exact .push b _

theorem FunctionLowers.adds {decl : FunctionDecl}
    (h : FunctionLowers r decl result locals locals' b₀ b₁ b₂) :
    Adds { name := decl.name } b₂ (decl.values.map Expr.guards).sum
      (decl.values.map Expr.divisions).sum := by
  simpa [FunctionDecl.values] using (h.params.adds.trans h.body.adds).trans h.closes.adds

end Lowering

structure GuardedCode (decl : FunctionDecl) (code : List Node) : Prop where
  clamped : RawClamped code
  bounded : ∀ dest src lower upper ty abort, Node.clamp dest src lower upper ty abort ∈ code →
    ty.bounds = .ok ⟨lower, upper⟩ ∧ abort = .rangeViolation
  divisors : ∀ before dest left right ty after,
    code = before ++ .binary dest .div left right ty :: after →
      ∃ start, before = start ++ [.zeroCheck right ty .divisionByZero]
  constants : ∀ dest ty value, Node.const dest ty value ∈ code →
    ty.literalInRange value = .ok true
  clamps : code.countP Node.isClamp = (decl.values.map Expr.guards).sum
  checks : code.countP Node.isZeroCheck = (decl.values.map Expr.divisions).sum

theorem lower_guardedCode {decl : FunctionDecl} {f : CompiledFunction}
    (h : decl.lower r = .ok f) : GuardedCode decl f.nodes := by
  obtain ⟨result, locals, locals', b₀, b₁, b₂, hf, rfl⟩ := Lowering.lower_eq_ok.mp h
  obtain ⟨hg₀, hg₁, _⟩ := hf.grows
  have hg := hg₀.trans hg₁
  have hempty : RawClamped ({ name := decl.name } : Buffer).nodes := by
    intro before node after dest ty hs
    simp at hs
  have hclamped := hg.rawClamped rfl .nil hempty
  have hchecked := hg.checked .nil
  obtain ⟨hclamps, hchecks⟩ := hf.adds
  refine ⟨hclamped, ?_, ?_, ?_, by simpa using hclamps, by simpa using hchecks⟩
  · intro dest src lower upper ty abort hm
    obtain ⟨before, after, hs⟩ := List.append_of_mem hm
    exact hchecked before _ after hs
  · intro before dest left right ty after hs
    exact hchecked before _ after hs rfl
  · intro dest ty value hm
    obtain ⟨before, after, hs⟩ := List.append_of_mem hm
    exact hchecked before _ after hs

theorem share_guardedCode :
    ∃ f, FunctionDecl.share.lower .default = .ok f ∧ GuardedCode .share f.nodes := by
  obtain ⟨f, hf⟩ := FunctionDecl.share_lowers
  exact ⟨f, hf, lower_guardedCode hf⟩

end ContractGuard
