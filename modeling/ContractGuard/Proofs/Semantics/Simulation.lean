import ContractGuard.Proofs.Lowering.Growth
import ContractGuard.Proofs.Semantics.Checked

/-!
# Lowered expressions run as they are evaluated

A typed value represents the cell that its expression evaluates to: a literal by its
payload, and a held value by its register. Where evaluation has a value the code runs
through and leaves a representation of it, where evaluation aborts the code does so with
the same abort code, and evaluation never gets stuck. A literal is never aborted.
-/

namespace ContractGuard

open ScalarType

variable {result : Option ScalarType} {args : Arguments} {regs regs' : Registers}
  {b b' b₁ b₂ : Buffer} {v w : TypedValue} {c : Cell} {halt : Halt}

namespace Buffer

def Runs (b : Buffer) (args : Arguments) (regs : Registers) : Prop :=
  run args (fun _ => none) b.nodes = .ok regs

def Halts (b : Buffer) (args : Arguments) (halt : Halt) : Prop :=
  run args (fun _ => none) b.nodes = .error halt

variable {block : List Node}

theorem Runs.push (h : b.Runs args regs) (hb : run args regs block = .ok regs') :
    (b.push block).Runs args regs' :=
  (run_append_of_ok h).trans hb

theorem Runs.push_halts (h : b.Runs args regs) (hb : run args regs block = .error halt) :
    (b.push block).Halts args halt :=
  (run_append_of_ok h).trans hb

theorem Runs.unique (h : b.Runs args regs) (h' : b.Runs args regs') : regs = regs' := by
  simpa [Runs] using h.symm.trans h'

theorem Halts.not_runs (h : b.Halts args halt) : ¬ b.Runs args regs := by
  intro h'
  cases h.symm.trans h'

theorem Halts.grow (h : b.Halts args halt) (hg : Grows result b b') : b'.Halts args halt := by
  obtain ⟨more, hm⟩ := hg.nodes_isPrefix
  simp only [Halts]
  rw [← hm]
  exact run_append_of_error h

theorem Runs.keeps (h : b.Runs args regs) (h' : b'.Runs args regs') (hg : Grows result b b')
    (hn : b.Numbered) : regs.Keeps regs' := by
  intro id d hid
  obtain ⟨more, hm⟩ := hg.nodes_isPrefix
  have hmem := mem_dests_of_run h hid
  have hnodup := (hg.numbered hn).nodup
  rw [← hm, dests_append] at hnodup
  have hnot : id ∉ dests more := fun hmore => List.disjoint_of_nodup_append hnodup hmem hmore
  have hrun : run args regs more = .ok regs' := by
    rw [← run_append_of_ok h, hm]
    exact h'
  rw [run_frame hrun hnot, hid]

end Buffer

/-- The typed value stands for the cell: its payload or its register is the value. -/
structure Represents (regs : Registers) (v : TypedValue) (c : Cell) : Prop where
  ty : c.ty = v.ty
  table : v.ty ∈ ScalarType.table
  literal : v.isLiteral = true → v.value.datum = c.datum
  held : ∀ id, v.operand = some id → regs id = some c.datum ∧ v.ty.Holds c.datum
  bare : v.operand = none → v.isLiteral = true

theorem Represents.keep (h : Represents regs v c) (hk : regs.Keeps regs') :
    Represents regs' v c := by
  refine ⟨h.ty, h.table, h.literal, ?_, h.bare⟩
  intro id hid
  obtain ⟨hreg, hholds⟩ := h.held id hid
  exact ⟨hk id _ hreg, hholds⟩

theorem Represents.holds (h : Represents regs v c) (hl : v.Legal) : v.ty.Holds c.datum := by
  cases ho : v.operand with
  | some id => exact (h.held id ho).2
  | none =>
    have hlit := h.bare ho
    rw [← h.literal hlit]
    exact holds_of_literalInRange h.table (hl hlit)

theorem Emit.Holds.runs {id : ValueId} (h : Emit.Holds v b id b') (hr : b.Runs args regs)
    (hv : Represents regs v c) : ∃ regs', b'.Runs args regs' ∧ regs' id = some c.datum := by
  cases h with
  | held ho => exact ⟨regs, hr, (hv.held id ho).1⟩
  | constant ho =>
    refine ⟨regs.write b.fresh v.value.datum, hr.push rfl, ?_⟩
    rw [hv.literal (hv.bare ho)]
    exact Function.update_self _ _ _

/-- The code runs as the evaluation went. -/
inductive Simulated (args : Arguments) (v : TypedValue) (b : Buffer) : Except Halt Cell → Prop
  | value {regs : Registers} {c : Cell} :
      b.Runs args regs → Represents regs v c → Simulated args v b (.ok c)
  | aborted {code : AbortCode} :
      b.Halts args (.aborted code) → v.isLiteral = false →
      Simulated args v b (.error (.aborted code))

theorem Simulated.bind {x : Except Halt Cell} {f : Cell → Except Halt Cell}
    (h : Simulated args v b x) (hg : Grows result b b')
    (hl : v.isLiteral = false → w.isLiteral = false)
    (hf : ∀ regs c, b.Runs args regs → Represents regs v c → Simulated args w b' (f c)) :
    Simulated args w b' (x >>= f) := by
  cases h with
  | value hr hrep => exact hf _ _ hr hrep
  | aborted hhalts hlit => exact .aborted (hhalts.grow hg) (hl hlit)

theorem simulated_clamp {code : List Node} {dest src : ValueId} {ty : ScalarType} {range : Bounds}
    {d : Datum} (hrun : run args (fun _ => none) code = .ok regs)
    (hnodes : b.nodes = code ++ [.clampTo dest src ty range]) (hty : ty ∈ table)
    (hb : ty.bounds = .ok range) (hsrc : regs src = some d) (hs : ty.Shaped d) (hw : w.ty = ty)
    (hop : w.operand = some dest)
    (hlit : w.isLiteral = true → w.value.datum = d ∧ ty.Holds d) :
    Simulated args w b (ty.confine d) := by
  have hstep := step_clampTo args hty hb dest hsrc hs
  cases ha : ty.confine d with
  | ok c =>
    obtain ⟨rfl, hholds⟩ := confine_eq_ok ha hs
    rw [ha] at hstep
    have hruns : b.Runs args (regs.write dest d) := by
      simp only [Buffer.Runs]
      rw [hnodes, run_append_of_ok hrun]
      exact run_cons_of_ok hstep
    refine .value hruns ⟨hw.symm, hw ▸ hty, ?_, ?_, ?_⟩
    · intro hl
      exact (hlit hl).1
    · intro id hid
      obtain rfl : dest = id := by simpa [hop] using hid
      exact ⟨Function.update_self _ _ _, hw ▸ hholds⟩
    · intro hnone
      simp [hop] at hnone
  | error halt =>
    obtain rfl := confine_eq_error ha hs
    rw [ha] at hstep
    refine .aborted ?_ ?_
    · simp only [Buffer.Halts]
      rw [hnodes, run_append_of_ok hrun]
      exact run_cons_of_error hstep
    · -- a literal result was found in range, so the clamp lets it pass
      rw [← Bool.not_eq_true]
      intro hl
      rw [confine_of_holds (hlit hl).2] at ha
      cases ha

theorem Cell.recast?_self {ty : ScalarType} {d : Datum} (h : ty.Holds d) :
    (⟨ty, d⟩ : Cell).recast? ty = some d := by
  obtain ⟨hs, _⟩ := h
  cases d with
  | number q => cases hk : ty.kind <;> simp_all [Cell.recast?, Shaped]
  | bytes bs => simp [Cell.recast?, hs.1]
  | meaningless => exact hs.elim

namespace ConversionEntry

variable {entry : ConversionEntry} {converted : Converted} {span : Span}

theorem result_literal (hp : entry.Planned v span converted) (ht : entry.target ∈ table)
    (hv : Represents regs v c) {e : Datum} (hrec : Recasts v entry.target c.datum converted e)
    {dest : ValueId} (hl : (entry.result v converted dest).isLiteral = true) :
    (entry.result v converted dest).value.datum = e ∧ entry.target.Holds e := by
  simp only [result] at hl ⊢
  split_ifs at hl ⊢ with hlit
  · have he := hrec.literal hlit (hv.literal hlit)
    exact ⟨he, he ▸ holds_of_literalInRange ht (hp.result hlit)⟩
  · simp [TypedValue.runtime] at hl

theorem result_ty {dest : ValueId} : (entry.result v converted dest).ty = entry.target := by
  simp only [result]
  split_ifs <;> rfl

theorem result_operand {dest : ValueId} :
    (entry.result v converted dest).operand = some dest := by
  simp only [result]
  split_ifs <;> rfl

theorem Emits.isLiteral (h : entry.Emits v converted b w b') : w.isLiteral = v.isLiteral := by
  have hres : ∀ dest, (entry.result v converted dest).isLiteral = v.isLiteral := by
    intro dest
    simp only [result]
    cases v.isLiteral <;> rfl
  cases h with
  | same _ _ _ => exact hres _
  | changed _ _ _ => exact hres _

theorem Emits.simulates (h : entry.Emits v converted b w b') (hp : entry.Planned v span converted)
    (hproc : entry.procedure = Procedure.forKind entry.target.kind) (ht : entry.target ∈ table)
    (hr : b.Runs args regs) (hv : Represents regs v c) :
    Simulated args w b' (c.convert entry.target) := by
  have hholds := hv.holds hp.legal
  have hran := hp.ran
  rw [hproc] at hran
  obtain ⟨e, hrec⟩ := Procedure.forKind_recasts hv.table ht hholds hran
  have hrecast : c.recast? entry.target = some e := by
    have hc : c = ⟨v.ty, c.datum⟩ := by rw [← hv.ty]
    rw [hc]
    exact hrec.recast
  have hconvert : c.convert entry.target = entry.target.confine e := by
    simp only [Cell.convert]
    rw [hrecast]
  rw [hconvert]
  cases h with
  | @same id b₁ range hh hty hb =>
    obtain ⟨regs₁, hr₁, hid⟩ := hh.runs hr hv
    have he : e = c.datum := by
      have hself := Cell.recast?_self hholds
      have := hrec.recast
      rw [← hty, hself] at this
      exact (Option.some.inj this).symm
    exact simulated_clamp hr₁ rfl ht hb (he ▸ hid) hrec.shaped result_ty result_operand
      (result_literal hp ht hv hrec)
  | @changed id b₁ range hh hty hb =>
    obtain ⟨regs₁, hr₁, hid⟩ := hh.runs hr hv
    have hstep : (Node.convert b₁.fresh id v.ty entry.target converted.mode).step args regs₁ =
        .ok (regs₁.write b₁.fresh e) := by
      simp [Node.step, Registers.read, hid, hrec.mode, bind, Except.bind]
    have hrun : run args (fun _ => none)
        (b₁.nodes ++ [.convert b₁.fresh id v.ty entry.target converted.mode]) =
          .ok (regs₁.write b₁.fresh e) := by
      rw [run_append_of_ok hr₁]
      exact run_cons_of_ok hstep
    refine simulated_clamp hrun ?_ ht hb (Function.update_self _ _ _) hrec.shaped result_ty
      result_operand (result_literal hp ht hv hrec)
    simp

end ConversionEntry

namespace ArithOp

variable {op : ArithOp} {left right : TypedValue} {folded : Option Payload} {x y : Cell}

theorem Planned.both_literal (hp : op.Planned left right folded) {p : Payload}
    (hf : folded = some p) :
    left.isLiteral = true ∧ right.isLiteral = true ∧
      op.fold left.ty left.value right.value = .ok p ∧
      ∃ range, left.ty.bounds = .ok range ∧ range.contains p = true := by
  have h := hp.folded
  split_ifs at h with hlit
  · obtain ⟨p', hp', hfold, hrange⟩ := h
    obtain rfl : p = p' := by simpa [hf] using hp'
    obtain ⟨hl, hr⟩ := Bool.and_eq_true_iff.mp hlit
    exact ⟨hl, hr, hfold, hrange⟩
  · rw [hf] at h
    cases h

theorem Planned.divisor_ne_zero (hp : op.Planned left right folded) (ho : op = .div)
    (hl : right.isLiteral = true) {q : ℚ} (hq : right.value.datum = .number q) : q ≠ 0 := by
  intro hz
  have hzero := (Payload.isZero_iff hq).mpr hz
  rw [hp.divisor ho hl] at hzero
  cases hzero

theorem result_ty (ty : ScalarType) (folded : Option Payload) (dest : ValueId) :
    (ArithOp.result ty folded dest).ty = ty := by
  cases folded <;> rfl

theorem result_operand (ty : ScalarType) (folded : Option Payload) (dest : ValueId) :
    (ArithOp.result ty folded dest).operand = some dest := by
  cases folded <;> rfl

theorem folded_of_literal {ty : ScalarType} {dest : ValueId}
    (h : (ArithOp.result ty folded dest).isLiteral = true) :
    ∃ p, folded = some p ∧ (ArithOp.result ty folded dest).value = p := by
  cases folded with
  | none => cases h
  | some p => exact ⟨p, rfl, rfl⟩

theorem Emits.isLiteral (h : op.Emits left right folded b w b')
    (hp : op.Planned left right folded) :
    w.isLiteral = (left.isLiteral && right.isLiteral) := by
  cases h with
  | clamped _ _ _ =>
    have hf := hp.folded
    split_ifs at hf with hlit
    · obtain ⟨p, rfl, _⟩ := hf
      exact hlit.symm
    · rw [hf]
      exact (Bool.eq_false_iff.mpr hlit).symm

theorem evaluate_eq {p q : ℚ} (hp : op.Planned left right folded) (hx : x.ty = left.ty)
    (hy : y.ty = right.ty) (hpx : x.datum = .number p) (hqy : y.datum = .number q) :
    op.evaluate x y =
      if op = .div ∧ q = 0 then .error (.aborted .divisionByZero)
      else left.ty.confine (.number (op.meaning left.ty p q)) := by
  have hk := isNumeric_iff.mp hp.numeric
  have hty : ¬ (left.ty ≠ y.ty ∨ left.ty.kind = .bytes) := by
    rw [hy, ← hp.sameType]
    simpa using hk
  simp only [evaluate, hpx, hqy, hx, if_neg hty]

theorem result_literal (hp : op.Planned left right folded) (hty : left.ty ∈ table) {p q : ℚ}
    (hpv : left.isLiteral = true → left.value.datum = .number p)
    (hqv : right.isLiteral = true → right.value.datum = .number q)
    (hph : left.ty.Holds (.number p)) (hqh : left.ty.Holds (.number q)) {dest : ValueId}
    (hl : (ArithOp.result left.ty folded dest).isLiteral = true) :
    (ArithOp.result left.ty folded dest).value.datum = .number (op.meaning left.ty p q) ∧
      left.ty.Holds (.number (op.meaning left.ty p q)) := by
  obtain ⟨r, hf, hvalue⟩ := folded_of_literal hl
  obtain ⟨hll, hrl, hfold, range, hb, hc⟩ := hp.both_literal hf
  obtain rfl := layoutBounds_eq hty hb
  rw [hvalue]
  exact holds_fold hty (hpv hll) (hqv hrl) hph hqh hfold hc

theorem run_operation {ty : ScalarType} {dest lhs rhs : ValueId} {p q : ℚ}
    (hp : regs.readNumber lhs = .ok p) (hq : regs.readNumber rhs = .ok q)
    (hzero : ¬ (op = .div ∧ q = 0)) :
    run args regs (op.divisorCheck rhs ty ++ [.binary dest op lhs rhs ty]) =
      .ok (regs.write dest (.number (op.meaning ty p q))) := by
  have hcheck : run args regs (op.divisorCheck rhs ty) = .ok regs := by
    simp only [divisorCheck]
    split_ifs with hdiv
    · apply run_cons_of_ok
      have hq0 : q ≠ 0 := fun hq0 => hzero ⟨hdiv, hq0⟩
      simp [Node.step, hq, hq0, bind, Except.bind]
    · rfl
  rw [run_append_of_ok hcheck]
  apply run_cons_of_ok
  simp [Node.step, hp, hq, hzero, bind, Except.bind]

theorem Emits.simulates (h : op.Emits left right folded b w b')
    (hp : op.Planned left right folded) (hn : b.Numbered) (hsl : left.Settled b.nodes)
    (hsr : right.Settled b.nodes) (hr : b.Runs args regs) (hx : Represents regs left x)
    (hy : Represents regs right y) : Simulated args w b' (op.evaluate x y) := by
  obtain @⟨lhs, rhs, b₁, b₂, range, hlhs, hrhs, hb⟩ := h
  have hk := isNumeric_iff.mp hp.numeric
  have hxh := hx.holds hp.legalLeft
  have hyh := hy.holds hp.legalRight
  rw [← hp.sameType] at hyh
  obtain ⟨p, hpx⟩ := number_of_holds hk hxh
  obtain ⟨q, hqy⟩ := number_of_holds hk hyh
  rw [hpx] at hxh
  rw [hqy] at hyh
  -- both operands sit in registers by the time of the operation
  obtain ⟨hg₁, _⟩ := hlhs.grows none hsl hp.legalLeft
  obtain ⟨regs₁, hr₁, hlid⟩ := hlhs.runs hr hx
  obtain ⟨hg₂, _⟩ := hrhs.grows none (hsr.grow hg₁) hp.legalRight
  obtain ⟨regs₂, hr₂, hrid⟩ := hrhs.runs hr₁ (hy.keep (hr.keeps hr₁ hg₁ hn))
  have hlid₂ := hr₁.keeps hr₂ hg₂ (hg₁.numbered hn) lhs x.datum hlid
  have hreadl : regs₂.readNumber lhs = .ok p := by simp [Registers.readNumber, hlid₂, hpx]
  have hreadr : regs₂.readNumber rhs = .ok q := by simp [Registers.readNumber, hrid, hqy]
  rw [evaluate_eq hp hx.ty hy.ty hpx hqy]
  by_cases hzero : op = .div ∧ q = 0
  · rw [if_pos hzero]
    obtain ⟨hdiv, hq0⟩ := hzero
    refine .aborted (hr₂.push_halts ?_) ?_
    · simp only [divisorCheck, if_pos hdiv]
      apply run_cons_of_error
      simp [Node.step, hreadr, hq0, bind, Except.bind]
    · rw [← Bool.not_eq_true]
      intro hlit
      obtain ⟨folded', hf, _⟩ := folded_of_literal hlit
      obtain ⟨_, hrl, _⟩ := hp.both_literal hf
      exact hp.divisor_ne_zero hdiv hrl ((hy.literal hrl).trans hqy) hq0
  · rw [if_neg hzero]
    have hrun : run args (fun _ => none) (b₂.nodes ++ (op.divisorCheck rhs left.ty ++
        [.binary b₂.fresh op lhs rhs left.ty])) =
          .ok (regs₂.write b₂.fresh (.number (op.meaning left.ty p q))) := by
      rw [run_append_of_ok hr₂, run_operation hreadl hreadr hzero]
    refine simulated_clamp hrun (by simp) hx.table hb (Function.update_self _ _ _)
      (shaped_meaning op hx.table hxh.1 hyh.1) (result_ty _ _ _) (result_operand _ _ _) ?_
    exact result_literal hp hx.table (fun hl => (hx.literal hl).trans hpx)
      (fun hl => (hy.literal hl).trans hqy) hxh hyh

end ArithOp

def Models (regs : Registers) (locals : Locals) (env : Environment) : Prop :=
  List.Forall₂ (fun local_ cell => local_.1 = cell.1 ∧ Represents regs local_.2 cell.2) locals env

namespace Models

variable {locals : Locals} {env : Environment}

theorem keep (h : Models regs locals env) (hk : regs.Keeps regs') : Models regs' locals env := by
  refine h.imp ?_
  intro entry cell hentry
  exact ⟨hentry.1, hentry.2.keep hk⟩

theorem lookup (h : Models regs locals env) {name : String} (hl : locals.lookup name = some v) :
    ∃ c, env.lookup name = some c ∧ Represents regs v c := by
  induction h with
  | nil => simp at hl
  | @cons entry cell locals env hentry _ ih =>
    obtain ⟨key, u⟩ := entry
    obtain ⟨key', c⟩ := cell
    obtain ⟨rfl, hrep⟩ := hentry
    rw [List.lookup_cons] at hl ⊢
    by_cases hk : name = key
    · simp only [hk, beq_self_eq_true] at hl ⊢
      obtain rfl : u = v := by simpa using hl
      exact ⟨c, rfl, hrep⟩
    · have hne : (name == key) = false := by simpa using hk
      simp only [hne] at hl ⊢
      exact ih hl

theorem lookup_none (h : Models regs locals env) {name : String}
    (hl : locals.lookup name = none) : env.lookup name = none := by
  induction h with
  | nil => rfl
  | @cons entry cell locals env hentry _ ih =>
    obtain ⟨key, u⟩ := entry
    obtain ⟨key', c⟩ := cell
    obtain ⟨rfl, _⟩ := hentry
    rw [List.lookup_cons] at hl ⊢
    by_cases hk : name = key
    · simp [hk] at hl
    · have hne : (name == key) = false := by simpa using hk
      simp only [hne] at hl ⊢
      exact ih hl

end Models

namespace Lowering

variable {locals : Locals} {env : Environment} {e : Expr}

theorem ExprLowers.simulates (h : ExprLowers .default locals e b v b') (ht : e.TableTyped)
    (hn : b.Numbered) (hs : locals.Settled b.nodes) (hr : b.Runs args regs)
    (hl : Models regs locals env) : Simulated args v b' (e.eval env) := by
  induction h generalizing regs with
  | literal =>
    refine .value hr ⟨rfl, ht _ rfl, fun _ => rfl, ?_, fun _ => rfl⟩
    intro id hid
    cases hid
  | name hname =>
    obtain ⟨c, hc, hrep⟩ := hl.lookup hname
    simp only [Expr.eval, hc]
    exact .value hr hrep
  | conversion harg hconv ih =>
    obtain ⟨_, hv⟩ := harg.grows none hs
    obtain ⟨entry, converted, hentry, hp, he⟩ := Registry.convert_yields.mp hconv
    obtain ⟨hfind, hproc⟩ := Registry.resolve_default hentry
    obtain ⟨hg, _⟩ := he.grows none hv hp.legal
    simp only [Expr.eval, hfind]
    refine (ih ht hn hs hr hl).bind hg he.isLiteral.trans ?_
    intro regs₁ c hr₁ hrep
    exact he.simulates hp hproc (find?_eq_some hfind).1 hr₁ hrep
  | @binary op left right span v w u b b₁ b₂ b₃ hleft hright hguard ihl ihr =>
    obtain ⟨htl, htr⟩ := ht
    obtain ⟨hg₁, hv⟩ := hleft.grows none hs
    obtain ⟨hg₂, hw⟩ := hright.grows none (hs.grow hg₁)
    obtain ⟨known, folded, rfl, hp, he⟩ := guard_yields.mp hguard
    obtain ⟨hg₃, _⟩ := he.grows none hp (hv.grow hg₂) hw
    have hn₁ := hg₁.numbered hn
    have hlit := he.isLiteral hp
    -- the left operand is evaluated first, so its abort comes first
    refine (ihl htl hn hs hr hl).bind (hg₂.trans hg₃) (fun hf => by simp [hlit, hf]) ?_
    intro regs₁ x hr₁ hx
    have hl₁ := hl.keep (hr.keeps hr₁ hg₁ hn)
    refine (ihr htr hn₁ (hs.grow hg₁) hr₁ hl₁).bind hg₃ (fun hf => by simp [hlit, hf]) ?_
    intro regs₂ y hr₂ hy
    have hx₂ := hx.keep (hr₁.keeps hr₂ hg₂ hn₁)
    exact he.simulates hp (hg₂.numbered hn₁) (hv.grow hg₂) hw hr₂ hx₂ hy

end Lowering

end ContractGuard
