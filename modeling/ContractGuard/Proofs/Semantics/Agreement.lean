import ContractGuard.Proofs.Arithmetic.Defined
import ContractGuard.Proofs.Lowering.Atomic
import ContractGuard.Proofs.Semantics.Simulation

/-!
# Folding agrees with running

An operation on two literals is folded by the guard, and one on a run-time operand is left
to the code that the guard appends. Whichever way two legal values are passed, both paths
come to the same: the same number, a range violation, or a division by zero. The code may
run from any registers that hold the operands.
-/

namespace ContractGuard

open ScalarType

variable {args : Arguments} {regs regs' : Registers} {b b' b₀ b₁ : Buffer} {ty : ScalarType}
  {p q r : Payload} {u v w : TypedValue} {span : Span} {id : ValueId} {d : Datum} {x y : ℚ}

def Buffer.Avoids (b : Buffer) (id : ValueId) : Prop := ∀ i, b.nextValue ≤ i → id ≠ .ofIndex i

/-- The operand stands for the payload: as a literal, bare or held, or as a run-time value
whose register holds the same. -/
structure Passes (regs : Registers) (b : Buffer) (ty : ScalarType) (p : Payload)
    (v : TypedValue) : Prop where
  ty : v.ty = ty
  literal : v.isLiteral = true → v.value = p
  held : ∀ id, v.operand = some id → regs id = some p.datum ∧ b.Avoids id
  bare : v.operand = none → v.isLiteral = true

theorem passes_literal (regs : Registers) (b : Buffer) (ty : ScalarType) (p : Payload) :
    Passes regs b ty p (.literal ty p) := by
  refine ⟨rfl, fun _ => rfl, ?_, fun _ => rfl⟩
  intro id h
  cases h

theorem passes_runtime (hid : regs id = some p.datum) (ha : b.Avoids id) :
    Passes regs b ty p (.runtime ty id) := by
  refine ⟨rfl, ?_, ?_, ?_⟩
  · intro h
    cases h
  · intro id' h
    obtain rfl : id = id' := by simpa [TypedValue.runtime] using h
    exact ⟨hid, ha⟩
  · intro h
    cases h

theorem Passes.legal (h : Passes regs b ty p v) (hp : ty.literalInRange p = .ok true) :
    v.Legal := by
  intro hl
  rw [h.ty, h.literal hl]
  exact hp

namespace Buffer

theorem Avoids.mono (h : b.Avoids id) (hle : b.nextValue ≤ b'.nextValue) : b'.Avoids id :=
  fun i hi => h i (hle.trans hi)

theorem avoids_ofIndex {i : ℕ} (h : i < b.nextValue) : b.Avoids (.ofIndex i) := by
  intro j hj he
  have := ValueId.ofIndex_injective he
  omega

/-- From `b` on the buffer appended code that runs, and no register was lost that it did
not hand out. -/
structure Continues (args : Arguments) (b : Buffer) (regs : Registers) (b' : Buffer)
    (regs' : Registers) : Prop where
  next : b.nextValue ≤ b'.nextValue
  nodes : ∃ code, b'.nodes = b.nodes ++ code ∧ run args regs code = .ok regs'
  keeps : ∀ id, b.Avoids id → regs' id = regs id

theorem Continues.trans {regs₁ : Registers} (h : Continues args b regs b₁ regs₁)
    (h' : Continues args b₁ regs₁ b' regs') : Continues args b regs b' regs' := by
  obtain ⟨code, hc, hrun⟩ := h.nodes
  obtain ⟨code', hc', hrun'⟩ := h'.nodes
  refine ⟨h.next.trans h'.next, ⟨code ++ code', ?_, ?_⟩, ?_⟩
  · rw [hc', hc, List.append_assoc]
  · rw [run_append_of_ok hrun, hrun']
  · intro id hid
    rw [h'.keeps id (hid.mono h.next), h.keeps id hid]

end Buffer

theorem Passes.continues (h : Passes regs b ty p v) (hc : b.Continues args regs b' regs') :
    Passes regs' b' ty p v := by
  refine ⟨h.ty, h.literal, ?_, h.bare⟩
  intro id hid
  obtain ⟨hreg, ha⟩ := h.held id hid
  exact ⟨(hc.keeps id ha).trans hreg, ha.mono hc.next⟩

theorem Emit.Holds.continues (args : Arguments) (h : Emit.Holds v b id b')
    (hv : Passes regs b ty p v) :
    ∃ regs', b.Continues args regs b' regs' ∧ regs' id = some p.datum ∧ b'.Avoids id := by
  cases h with
  | held ho =>
    obtain ⟨hreg, ha⟩ := hv.held id ho
    exact ⟨regs, ⟨Nat.le_refl _, ⟨[], (List.append_nil _).symm, rfl⟩, fun _ _ => rfl⟩, hreg, ha⟩
  | constant ho =>
    have hlit := hv.literal (hv.bare ho)
    refine ⟨regs.write b.fresh p.datum, ⟨?_, ⟨_, rfl, ?_⟩, ?_⟩, ?_, ?_⟩
    · exact Nat.le_add_right _ _
    · rw [hlit]
      rfl
    · intro id hid
      exact Function.update_of_ne (hid _ (Nat.le_refl _)) _ _
    · exact Function.update_self _ _ _
    · apply Buffer.avoids_ofIndex
      simp [Node.dest?, Node.defines]

inductive Guarded where
  | refused (e : Fault)
  | left (value : Option Datum)
  | halted (halt : Halt)
deriving DecidableEq

namespace ArithOp

variable {op : ArithOp} {folded : Option Payload} {fault : Fault}

def early (op : ArithOp) (ty : ScalarType) (p q : Payload) (span : Span) (b : Buffer) :
    Except Fault TypedValue :=
  ((guard (.known op) (.literal ty p) (.literal ty q) span).run b).1

def late (op : ArithOp) (v w : TypedValue) (span : Span) (b : Buffer) (args : Arguments)
    (regs : Registers) : Guarded :=
  match (guard (.known op) v w span).run b with
  | (.error e, _) => .refused e
  | (.ok u, b') =>
    match run args regs (b'.nodes.drop b.nodes.length) with
    | .ok regs' => .left (u.operand.bind regs')
    | .error halt => .halted halt

theorem Emits.runs (args : Arguments) (h : op.Emits v w folded b u b') (hty : ty ∈ table)
    (hv : Passes regs b ty p v) (hw : Passes regs b ty q w) (hp : p.datum = .number x)
    (hq : q.datum = .number y) (hx : ty.Shaped (.number x)) (hy : ty.Shaped (.number y)) :
    ∃ code, b'.nodes = b.nodes ++ code ∧
      if op = .div ∧ y = 0 then run args regs code = .error (.aborted .divisionByZero)
      else if ty.InRange (op.meaning ty x y) then
        ∃ regs', run args regs code = .ok regs' ∧
          u.operand.bind regs' = some (.number (op.meaning ty x y))
      else run args regs code = .error (.aborted .rangeViolation) := by
  obtain @⟨lhs, rhs, b₁, b₂, range, hlhs, hrhs, hb⟩ := h
  obtain ⟨regs₁, hc₁, hlid, hla⟩ := hlhs.continues args hv
  obtain ⟨regs₂, hc₂, hrid, _⟩ := hrhs.continues args (hw.continues hc₁)
  have hlid₂ := (hc₂.keeps lhs hla).trans hlid
  have hreadl : regs₂.readNumber lhs = .ok x := by simp [Registers.readNumber, hlid₂, hp]
  have hreadr : regs₂.readNumber rhs = .ok y := by simp [Registers.readNumber, hrid, hq]
  obtain ⟨code, hnodes, hrun⟩ := (hc₁.trans hc₂).nodes
  rw [hv.ty] at hb ⊢
  refine ⟨_, by rw [Buffer.push_nodes, hnodes, List.append_assoc], ?_⟩
  by_cases hzero : op = .div ∧ y = 0
  · rw [if_pos hzero, run_append_of_ok hrun]
    simp only [divisorCheck, if_pos hzero.1]
    apply run_cons_of_error
    simp [Node.step, hreadr, hzero.2, bind, Except.bind]
  have hop : run args regs (code ++ (op.divisorCheck rhs ty ++ [.binary b₂.fresh op lhs rhs ty])) =
      .ok (regs₂.write b₂.fresh (.number (op.meaning ty x y))) := by
    rw [run_append_of_ok hrun, run_operation hreadl hreadr hzero]
  have hsplit : ∀ clamp : Node, code ++ (op.divisorCheck rhs ty ++
      [.binary b₂.fresh op lhs rhs ty, clamp]) =
        code ++ (op.divisorCheck rhs ty ++ [.binary b₂.fresh op lhs rhs ty]) ++ [clamp] := by
    simp
  have hshaped := shaped_meaning op hty hx hy
  have hraw : (regs₂.write b₂.fresh (.number (op.meaning ty x y))) b₂.fresh =
      some (.number (op.meaning ty x y)) := Function.update_self _ _ _
  have hstep := step_clampTo args hty hb (.ofIndex (b₂.nextValue + 1)) hraw hshaped
  rw [if_neg hzero, hsplit, run_append_of_ok hop]
  by_cases hrange : ty.InRange (op.meaning ty x y)
  · rw [if_pos hrange]
    rw [confine_of_holds ⟨hshaped, _, rfl, hrange⟩] at hstep
    refine ⟨_, run_cons_of_ok hstep, ?_⟩
    rw [result_operand]
    exact Function.update_self _ _ _
  · rw [if_neg hrange]
    apply run_cons_of_error
    rw [hstep]
    simp [confine, Datum.reading?, hrange, Except.map]

theorem plan_of_passed (hnum : ty.isNumeric = true) (hp : ty.literalInRange p = .ok true)
    (hq : ty.literalInRange q = .ok true) (hy : q.datum = .number y) (hv : Passes regs b ty p v)
    (hw : Passes regs b ty q w) :
    op.plan v w span =
      if op = .div ∧ w.isLiteral = true ∧ y = 0 then .error (.source ⟨.divisionByZero, span⟩)
      else op.foldInRange v w span := by
  have hlegalv : v.requireLegal span = .ok () :=
    TypedValue.requireLegal_eq_ok.mpr (hv.legal hp)
  have hlegalw : w.requireLegal span = .ok () :=
    TypedValue.requireLegal_eq_ok.mpr (hw.legal hq)
  simp only [plan]
  rw [hlegalv, hlegalw, hv.ty, hw.ty, hnum]
  have hzero : (decide (op = .div) && w.isLiteral && w.value.isZero) =
      decide (op = .div ∧ w.isLiteral = true ∧ y = 0) := by
    have hz := Payload.isZero_iff hy
    cases hl : w.isLiteral with
    | false => simp
    | true => simp [hw.literal hl, ← hz]
  rw [hzero]
  by_cases h : op = .div ∧ w.isLiteral = true ∧ y = 0
  · rw [if_pos h, decide_eq_true h, decide_eq_true (rfl : ty = ty)]
    rfl
  · simp only [h, if_false]
    rfl

theorem foldInRange_runtime (h : ¬ (v.isLiteral = true ∧ w.isLiteral = true)) :
    op.foldInRange v w span = .ok none := by
  have hl : (v.isLiteral && w.isLiteral) = false := by
    rw [← Bool.not_eq_true, Bool.and_eq_true]
    exact h
  simp only [foldInRange]
  rw [hl]
  rfl

theorem foldInRange_literals (hty : ty ∈ table) (hv : Passes regs b ty p v)
    (hw : Passes regs b ty q w) (hlv : v.isLiteral = true) (hlw : w.isLiteral = true)
    (hr : op.fold ty p q = .ok r) (hd : r.datum = .number x) (htext : r.HasText) :
    op.foldInRange v w span =
      if ty.InRange x then .ok (some r)
      else .error (.source ⟨.overflowAtCompileTime op.name ty.name r, span⟩) := by
  have hworded : (Cause.overflowAtCompileTime op.name ty.name r).Worded :=
    (Cause.worded_of_shown rfl).mpr htext
  have hc : ty.layoutBounds.contains r = decide (ty.InRange x) := by
    rw [Bool.eq_iff_iff, contains_of_number hty hd, decide_eq_true_eq]
  simp only [foldInRange, requireInBounds]
  rw [hlv, hlw, hv.ty, hv.literal hlv, hw.literal hlw, hr, bounds_eq hty]
  by_cases hrange : ty.InRange x
  · simp [hrange, hc, Fault.require, bind, Except.bind, pure, Except.pure]
  · simp [hrange, hc, Fault.require, Fault.blame_of_worded hworded, bind, Except.bind]

theorem early_eq (op : ArithOp) (hty : ty ∈ table) (hnum : ty.isNumeric = true)
    (hp : ty.literalInRange p = .ok true) (hq : ty.literalInRange q = .ok true)
    (hx : p.datum = .number x) (hy : q.datum = .number y) (span : Span) (b : Buffer) :
    if op = .div ∧ y = 0 then op.early ty p q span b = .error (.source ⟨.divisionByZero, span⟩)
    else ∃ r, r.datum = .number (op.meaning ty x y) ∧
      if ty.InRange (op.meaning ty x y) then
        ∃ dest, op.early ty p q span b = .ok ⟨ty, r, true, some dest⟩
      else op.early ty p q span b =
        .error (.source ⟨.overflowAtCompileTime op.name ty.name r, span⟩) := by
  have hv := passes_literal (fun _ => none) b ty p
  have hw := passes_literal (fun _ => none) b ty q
  have hplan : op.plan (.literal ty p) (.literal ty q) span =
      if op = .div ∧ y = 0 then .error (.source ⟨.divisionByZero, span⟩)
      else op.foldInRange (.literal ty p) (.literal ty q) span := by
    simpa [TypedValue.literal] using plan_of_passed hnum hp hq hy hv hw
  have hxh := hx ▸ holds_of_literalInRange hty hp
  have hyh := hy ▸ holds_of_literalInRange hty hq
  by_cases hzero : op = .div ∧ y = 0
  · rw [if_pos hzero] at hplan ⊢
    simp only [early]
    rw [guard_of_refused hplan]
  rw [if_neg hzero] at hplan ⊢
  obtain ⟨r, hr⟩ := fold_defined hty hx hy hxh hyh hzero
  have hd := fold_exact hty hx hy hxh hyh hr
  have htext := hasText_fold hty hx hy hxh hyh hr
  rw [foldInRange_literals hty hv hw rfl rfl hr hd htext] at hplan
  refine ⟨r, hd, ?_⟩
  by_cases hrange : ty.InRange (op.meaning ty x y)
  · rw [if_pos hrange] at hplan ⊢
    obtain ⟨u, b', hrun, he⟩ := guard_of_planned hplan (bounds_eq hty) b
    obtain ⟨dest, rfl⟩ : ∃ dest, u = ⟨ty, r, true, some dest⟩ := by
      cases he with
      | clamped _ _ _ => exact ⟨_, rfl⟩
    refine ⟨dest, ?_⟩
    simp only [early]
    rw [hrun]
  · rw [if_neg hrange] at hplan ⊢
    simp only [early]
    rw [guard_of_refused hplan]

/-- With a run-time operand the emitted code decides, unless the divisor is a literal
zero. -/
theorem late_eq (op : ArithOp) (hty : ty ∈ table) (hnum : ty.isNumeric = true)
    (hp : ty.literalInRange p = .ok true) (hq : ty.literalInRange q = .ok true)
    (hx : p.datum = .number x) (hy : q.datum = .number y) (hv : Passes regs b ty p v)
    (hw : Passes regs b ty q w) (hmixed : ¬ (v.isLiteral = true ∧ w.isLiteral = true))
    (span : Span) (args : Arguments) :
    op.late v w span b args regs =
      if op = .div ∧ y = 0 then
        if w.isLiteral = true then .refused (.source ⟨.divisionByZero, span⟩)
        else .halted (.aborted .divisionByZero)
      else if ty.InRange (op.meaning ty x y) then .left (some (.number (op.meaning ty x y)))
      else .halted (.aborted .rangeViolation) := by
  have hplan : op.plan v w span = _ := plan_of_passed hnum hp hq hy hv hw
  have hxs := (hx ▸ holds_of_literalInRange hty hp : ty.Holds (.number x)).1
  have hys := (hy ▸ holds_of_literalInRange hty hq : ty.Holds (.number y)).1
  rw [foldInRange_runtime hmixed] at hplan
  by_cases hrefused : op = .div ∧ w.isLiteral = true ∧ y = 0
  · rw [if_pos hrefused] at hplan
    obtain ⟨hdiv, hl, hzero⟩ := hrefused
    simp only [late]
    rw [guard_of_refused hplan, if_pos ⟨hdiv, hzero⟩, if_pos hl]
  rw [if_neg hrefused] at hplan
  obtain ⟨u, b', hrun, he⟩ := guard_of_planned hplan (bounds_eq (hv.ty ▸ hty)) b
  obtain ⟨code, hnodes, hcode⟩ := he.runs args hty hv hw hx hy hxs hys
  have hdrop : b'.nodes.drop b.nodes.length = code := by
    rw [hnodes, List.drop_left]
  simp only [late]
  rw [hrun]
  simp only [hdrop]
  by_cases hzero : op = .div ∧ y = 0
  · have hl : ¬ w.isLiteral = true := fun hl => hrefused ⟨hzero.1, hl, hzero.2⟩
    rw [if_pos hzero] at hcode ⊢
    rw [hcode, if_neg hl]
  rw [if_neg hzero] at hcode ⊢
  by_cases hrange : ty.InRange (op.meaning ty x y)
  · rw [if_pos hrange] at hcode ⊢
    obtain ⟨regs', hok, hleft⟩ := hcode
    rw [hok]
    simp only [hleft]
  · rw [if_neg hrange] at hcode ⊢
    rw [hcode]

structure Agrees (op : ArithOp) (ty : ScalarType) (span : Span) (early : Except Fault TypedValue)
    (late : Guarded) : Prop where
  value : ∀ d, (∃ u, early = .ok u ∧ u.value.datum = d) ↔ late = .left (some d)
  overflow : (∃ r, early = .error (.source ⟨.overflowAtCompileTime op.name ty.name r, span⟩)) ↔
    late = .halted (.aborted .rangeViolation)
  zero : early = .error (.source ⟨.divisionByZero, span⟩) ↔
    late = .halted (.aborted .divisionByZero) ∨
      late = .refused (.source ⟨.divisionByZero, span⟩)
  settled : (∃ d, late = .left (some d)) ∨ late = .halted (.aborted .rangeViolation) ∨
    late = .halted (.aborted .divisionByZero) ∨
      late = .refused (.source ⟨.divisionByZero, span⟩)

theorem agrees_of_values (hty : ty ∈ table) (hnum : ty.isNumeric = true)
    (hp : ty.literalInRange p = .ok true) (hq : ty.literalInRange q = .ok true)
    (hv : Passes regs b ty p v) (hw : Passes regs b ty q w)
    (hmixed : ¬ (v.isLiteral = true ∧ w.isLiteral = true)) (span : Span) (b₀ : Buffer)
    (args : Arguments) :
    op.Agrees ty span (op.early ty p q span b₀) (op.late v w span b args regs) := by
  have hk := isNumeric_iff.mp hnum
  obtain ⟨x, hx⟩ := number_of_holds hk (holds_of_literalInRange hty hp)
  obtain ⟨y, hy⟩ := number_of_holds hk (holds_of_literalInRange hty hq)
  have hearly := early_eq op hty hnum hp hq hx hy span b₀
  have hlate := late_eq op hty hnum hp hq hx hy hv hw hmixed span args
  by_cases hzero : op = .div ∧ y = 0
  · rw [if_pos hzero] at hearly hlate
    rw [hearly, hlate]
    constructor <;> split_ifs <;> simp
  rw [if_neg hzero] at hearly hlate
  obtain ⟨r, hr, hearly⟩ := hearly
  by_cases hrange : ty.InRange (op.meaning ty x y)
  · rw [if_pos hrange] at hearly hlate
    obtain ⟨dest, hearly⟩ := hearly
    rw [hearly, hlate]
    constructor <;> simp [hr]
  · rw [if_neg hrange] at hearly hlate
    rw [hearly, hlate]
    constructor <;> simp

end ArithOp

/-- However two legal values are passed, the guard tags the result as a literal if both
are, and with a run-time operand its code does what folding the two literals finds. -/
theorem guard_agrees (hty : ty ∈ table) (hnum : ty.isNumeric = true)
    (hp : ty.literalInRange p = .ok true) (hq : ty.literalInRange q = .ok true)
    (hv : Passes regs b ty p v) (hw : Passes regs b ty q w) (op : ArithOp) (span : Span)
    (b₀ : Buffer) (args : Arguments) :
    (∀ u b', (guard (.known op) v w span).Yields b u b' →
      u.isLiteral = (v.isLiteral && w.isLiteral)) ∧
    (¬ (v.isLiteral = true ∧ w.isLiteral = true) →
      op.Agrees ty span (op.early ty p q span b₀) (op.late v w span b args regs)) := by
  constructor
  · intro u b' h
    obtain ⟨known, folded, hop, hplanned, hemits⟩ := guard_yields.mp h
    exact hemits.isLiteral hplanned
  · intro hmixed
    exact ArithOp.agrees_of_values hty hnum hp hq hv hw hmixed span b₀ args

theorem guard_agrees_overflow :
    ArithOp.div.early (.int 8) (.int (-128)) (.int (-1)) {} { name := "f" } =
        .error (.source ⟨.overflowAtCompileTime "div" "int8" (.int 128), {}⟩) ∧
      ArithOp.div.late (.literal (.int 8) (.int (-128))) (.runtime (.int 8) (.ofIndex 0)) {}
        { name := "f", nextValue := 1 } (fun _ => .meaningless)
        (fun _ => some (.number (-1 : ℤ))) = .halted (.aborted .rangeViolation) := by
  have hearly : ArithOp.div.early (.int 8) (.int (-128)) (.int (-1)) {} { name := "f" } =
      .error (.source ⟨.overflowAtCompileTime "div" "int8" (.int 128), {}⟩) := by
    decide +kernel
  have hw : Passes (fun _ => some (.number (-1 : ℤ))) { name := "f", nextValue := 1 } (.int 8)
      (.int (-1)) (.runtime (.int 8) (.ofIndex 0)) :=
    passes_runtime rfl (Buffer.avoids_ofIndex (by decide))
  have hagrees := (guard_agrees (by decide) (by decide) (by decide +kernel) (by decide +kernel)
    (passes_literal _ _ _ (.int (-128))) hw .div {} { name := "f" } fun _ => .meaningless).2
    (by decide)
  exact ⟨hearly, hagrees.overflow.mp ⟨_, hearly⟩⟩

end ContractGuard
