import ContractGuard.Lowering
import ContractGuard.Proofs.Code.Definition
import ContractGuard.Proofs.Wording

/-!
# The steps of a lowering

A computation over the buffer either fails or yields a value and a later buffer. For
every step of the lowering this module says exactly what it yields: which checks held
and which nodes were appended. The relations follow the data, one constructor for
each form of expression and statement, so that later proofs are inductions over
finished lowerings and never run the monad.
-/

namespace ContractGuard

namespace Fault

@[simp] theorem require_eq_ok {holds : Bool} {span : Span} {cause : Cause} {u : Unit} :
    require holds span cause = .ok u ↔ holds = true := by
  cases holds <;> simp [require]

end Fault

namespace Emit

variable {α β : Type}

def Yields (x : Emit α) (b : Buffer) (a : α) (b' : Buffer) : Prop := x.run b = (.ok a, b')

theorem yields_of_fst {x : Emit α} {b : Buffer} {a : α} (h : (x.run b).1 = .ok a) :
    Yields x b a (x.run b).2 := Prod.ext h rfl

@[simp] theorem pure_yields {a a' : α} {b b' : Buffer} :
    Yields (pure a) b a' b' ↔ a = a' ∧ b = b' := by
  change ((.ok a, b) : Except Fault α × Buffer) = (.ok a', b') ↔ _
  simp

@[simp] theorem bind_yields {x : Emit α} {f : α → Emit β} {b b' : Buffer} {c : β} :
    Yields (x >>= f) b c b' ↔ ∃ a b₁, Yields x b a b₁ ∧ Yields (f a) b₁ c b' := by
  simp only [Yields]
  change (ExceptT.bindCont f (x.run b).1).run (x.run b).2 = _ ↔ _
  generalize x.run b = y
  obtain ⟨e | a, b₁⟩ := y
  · change ((.error e, b₁) : Except Fault β × Buffer) = (.ok c, b') ↔
      ∃ a b₂, ((.error e, b₁) : Except Fault α × Buffer) = (.ok a, b₂) ∧ _
    simp
  · change (f a).run b₁ = _ ↔
      ∃ a' b₂, ((.ok a, b₁) : Except Fault α × Buffer) = (.ok a', b₂) ∧ _
    simp

@[simp] theorem map_yields {x : Emit α} {f : α → β} {b b' : Buffer} {c : β} :
    Yields (f <$> x) b c b' ↔ ∃ a, Yields x b a b' ∧ f a = c := by
  rw [← bind_pure_comp, bind_yields]
  simp only [pure_yields]
  grind

@[simp] theorem ofExcept_yields {x : Except Fault α} {a : α} {b b' : Buffer} :
    Yields (ofExcept x) b a b' ↔ x = .ok a ∧ b = b' := by
  change ((x, b) : Except Fault α × Buffer) = (.ok a, b') ↔ _
  simp

@[simp] theorem throw_yields {e : Fault} {a : α} {b b' : Buffer} :
    ¬ Yields (throw e) b a b' := by
  change ¬ ((.error e, b) : Except Fault α × Buffer) = (.ok a, b')
  simp

@[simp] theorem get_yields {a b b' : Buffer} :
    Yields (get : Emit Buffer) b a b' ↔ b = a ∧ b = b' := by
  change ((.ok b, b) : Except Fault Buffer × Buffer) = (.ok a, b') ↔ _
  simp

@[simp] theorem newValue_yields {b b' : Buffer} {id : ValueId} :
    Yields newValue b id b' ↔ id = b.fresh ∧ b' = { b with nextValue := b.nextValue + 1 } := by
  change ((.ok b.fresh, { b with nextValue := b.nextValue + 1 }) :
    Except Fault ValueId × Buffer) = (.ok id, b') ↔ _
  simp [eq_comm]

@[simp] theorem node_yields {n : Node} {b b' : Buffer} {u : Unit} :
    Yields (node n) b u b' ↔ b' = { b with nodes := b.nodes ++ [n] } := by
  change ((.ok (), { b with nodes := b.nodes ++ [n] }) : Except Fault Unit × Buffer) =
    (.ok u, b') ↔ _
  simp [eq_comm]

/-- A bare literal gets the next id by a constant; any other value has its id. -/
inductive Holds (v : TypedValue) (b : Buffer) : ValueId → Buffer → Prop
  | held {id : ValueId} : v.operand = some id → Holds v b id b
  | constant : v.operand = none → Holds v b b.fresh (b.push [.const b.fresh v.ty v.value])

theorem materialize_yields {v : TypedValue} {b b' : Buffer} {id : ValueId} :
    Yields (materialize v) b id b' ↔ Holds v b id b' := by
  simp only [materialize]
  constructor
  · intro h
    cases ho : v.operand with
    | some k =>
      simp only [ho, pure_yields] at h
      obtain ⟨rfl, rfl⟩ := h
      exact .held ho
    | none =>
      simp only [ho, bind_yields, newValue_yields, node_yields, pure_yields] at h
      obtain ⟨_, _, ⟨rfl, rfl⟩, _, _, rfl, rfl, rfl⟩ := h
      exact .constant ho
  · intro h
    cases h with
    | held ho => simp [ho]
    | constant ho => simp [ho, Buffer.push, Buffer.fresh, Node.dest?, Node.defines]

theorem holds_exists (v : TypedValue) (b : Buffer) : ∃ id b', Holds v b id b' := by
  cases ho : v.operand with
  | some id => exact ⟨id, b, .held ho⟩
  | none => exact ⟨_, _, .constant ho⟩

theorem clamp_yields {src id : ValueId} {ty : ScalarType} {b b' : Buffer} :
    Yields (clamp src ty) b id b' ↔
      ∃ range, ty.bounds = .ok range ∧ id = b.fresh ∧
        b' = b.push [.clampTo b.fresh src ty range] := by
  simp only [clamp, bind_yields, ofExcept_yields, newValue_yields, node_yields, pure_yields]
  constructor
  · intro hy
    obtain ⟨range, _, ⟨hr, rfl⟩, _, _, ⟨rfl, rfl⟩, _, _, rfl, rfl, rfl⟩ := hy
    exact ⟨range, hr, rfl, rfl⟩
  · intro hy
    obtain ⟨range, hr, rfl, rfl⟩ := hy
    exact ⟨range, b, ⟨hr, rfl⟩, _, _, ⟨rfl, rfl⟩, (), _, rfl, rfl, rfl⟩

end Emit

theorem requireLegal_eq_ok {ty : ScalarType} {payload : Payload} {span : Span} {cause : Cause}
    {u : Unit} :
    requireLegal ty payload span cause = .ok u ↔ ty.literalInRange payload = .ok true := by
  simp [requireLegal]

theorem requireInBounds_eq_ok {ty : ScalarType} {payload : Payload} {span : Span} {cause : Cause}
    {u : Unit} :
    requireInBounds ty payload span cause = .ok u ↔
      ∃ range, ty.bounds = .ok range ∧ range.contains payload = true := by
  simp [requireInBounds]

def TypedValue.Legal (v : TypedValue) : Prop :=
  v.isLiteral = true → v.ty.literalInRange v.value = .ok true

theorem TypedValue.requireLegal_eq_ok {v : TypedValue} {span : Span} {u : Unit} :
    v.requireLegal span = .ok u ↔ v.Legal := by
  simp only [TypedValue.requireLegal, TypedValue.Legal]
  cases v.isLiteral <;> simp [ContractGuard.requireLegal_eq_ok]

namespace ConversionEntry

theorem requireSource_eq_ok {entry : ConversionEntry} {v : TypedValue} {span : Span} {u : Unit} :
    entry.requireSource v span = .ok u ↔
      (v.isLiteral = true → v.ty.isNumeric = true → entry.target.isNumeric = true →
        ∃ range, entry.target.bounds = .ok range ∧ range.contains v.value = true) := by
  simp only [requireSource]
  split_ifs with h
  · simp_all [requireInBounds_eq_ok]
  · simp_all

theorem requireResult_eq_ok {entry : ConversionEntry} {v : TypedValue} {converted : Converted}
    {span : Span} {u : Unit} :
    entry.requireResult v converted span = .ok u ↔
      (v.isLiteral = true → entry.target.literalInRange converted.literal = .ok true) := by
  simp only [requireResult]
  split_ifs with h
  · simp [h, requireLegal_eq_ok]
  · simp [h]

structure Planned (entry : ConversionEntry) (v : TypedValue) (span : Span)
    (converted : Converted) : Prop where
  legal : v.Legal
  source : v.isLiteral = true → v.ty.isNumeric = true → entry.target.isNumeric = true →
    ∃ range, entry.target.bounds = .ok range ∧ range.contains v.value = true
  ran : entry.procedure.run v entry.target span = .ok converted
  result : v.isLiteral = true → entry.target.literalInRange converted.literal = .ok true

theorem plan_eq_ok {entry : ConversionEntry} {v : TypedValue} {span : Span}
    {converted : Converted} :
    entry.plan v span = .ok converted ↔ entry.Planned v span converted := by
  simp only [plan, bind_eq_ok, TypedValue.requireLegal_eq_ok, requireSource_eq_ok,
    requireResult_eq_ok, pure_eq_ok]
  constructor
  · intro hy
    obtain ⟨_, hl, _, hs, _, hr, _, hc, rfl⟩ := hy
    exact ⟨hl, hs, hr, hc⟩
  · intro h
    exact ⟨(), h.legal, (), h.source, converted, h.ran, (), h.result, rfl⟩

def result (entry : ConversionEntry) (v : TypedValue) (converted : Converted) (dest : ValueId) :
    TypedValue :=
  if v.isLiteral then ⟨entry.target, converted.literal, true, some dest⟩
  else .runtime entry.target dest

/-- A conversion within one type is only clamped. -/
inductive Emits (entry : ConversionEntry) (v : TypedValue) (converted : Converted) (b : Buffer) :
    TypedValue → Buffer → Prop
  | same {id : ValueId} {b₁ : Buffer} {range : Bounds} :
      Emit.Holds v b id b₁ → v.ty = entry.target → entry.target.bounds = .ok range →
      Emits entry v converted b (entry.result v converted b₁.fresh)
        (b₁.push [.clampTo b₁.fresh id entry.target range])
  | changed {id : ValueId} {b₁ : Buffer} {range : Bounds} :
      Emit.Holds v b id b₁ → v.ty ≠ entry.target → entry.target.bounds = .ok range →
      Emits entry v converted b
        (entry.result v converted (.ofIndex (b₁.nextValue + 1)))
        (b₁.push [.convert b₁.fresh id v.ty entry.target converted.mode,
          .clampTo (.ofIndex (b₁.nextValue + 1)) b₁.fresh entry.target range])

theorem emit_yields {entry : ConversionEntry} {v w : TypedValue} {converted : Converted}
    {b b' : Buffer} :
    (entry.emit v converted).Yields b w b' ↔ entry.Emits v converted b w b' := by
  have hres : ∀ (dest : ValueId) (b₁ : Buffer),
      Emit.Yields (if v.isLiteral then
          pure ⟨entry.target, converted.literal, true, some dest⟩
        else pure (.runtime entry.target dest)) b₁ w b' ↔
      entry.result v converted dest = w ∧ b₁ = b' := by
    intro dest b₁
    simp only [result]
    split <;> simp
  simp only [emit]
  simp only [Emit.bind_yields, Emit.materialize_yields]
  by_cases ht : v.ty = entry.target
  · simp only [if_pos ht, Emit.bind_yields, Emit.pure_yields, Emit.clamp_yields, hres]
    constructor
    · intro hy
      obtain ⟨id, b₁, hh, _, _, ⟨rfl, rfl⟩, _, _, ⟨range, hr, rfl, rfl⟩, rfl, rfl⟩ := hy
      exact .same hh ht hr
    · intro hy
      rcases hy with ⟨hh, _, hr⟩ | ⟨_, hn, _⟩
      · exact ⟨_, _, hh, _, _, ⟨rfl, rfl⟩, _, _, ⟨_, hr, rfl, rfl⟩, rfl, rfl⟩
      · exact absurd ht hn
  · simp only [if_neg ht, Emit.bind_yields, Emit.pure_yields, Emit.newValue_yields,
      Emit.node_yields, Emit.clamp_yields, hres]
    constructor
    · intro hy
      obtain ⟨id, b₁, hh, _, _, ⟨rfl, rfl⟩, _, _, rfl, _, _, ⟨rfl, rfl⟩, _, _, ⟨range, hr, rfl,
        rfl⟩, rfl, rfl⟩ := hy
      have h : entry.Emits v converted b _ _ := .changed hh ht hr
      simpa [Buffer.push, Buffer.fresh, Node.dest?, Node.defines] using h
    · intro hy
      rcases hy with ⟨_, he, _⟩ | ⟨hh, _, hr⟩
      · exact absurd he ht
      · refine ⟨_, _, hh, _, _, ⟨rfl, rfl⟩, (), _, rfl, _, _, ⟨rfl, rfl⟩, _, _,
          ⟨_, hr, rfl, rfl⟩, ?_, ?_⟩
        all_goals simp [Buffer.push, Buffer.fresh, Node.dest?, Node.defines]

end ConversionEntry

theorem Registry.convert_yields {r : Registry} {v w : TypedValue} {target : String} {span : Span}
    {b b' : Buffer} :
    (r.convert v target span).Yields b w b' ↔
      ∃ entry converted, r.resolve target span = .ok entry ∧
        entry.Planned v span converted ∧ entry.Emits v converted b w b' := by
  simp only [Registry.convert, Emit.bind_yields, Emit.ofExcept_yields,
    ConversionEntry.plan_eq_ok, ConversionEntry.emit_yields]
  grind

namespace ArithOp

theorem foldInRange_eq_ok {op : ArithOp} {left right : TypedValue} {span : Span}
    {folded : Option Payload} :
    op.foldInRange left right span = .ok folded ↔
      if left.isLiteral && right.isLiteral then
        ∃ p, folded = some p ∧ op.fold left.ty left.value right.value = .ok p ∧
          ∃ range, left.ty.bounds = .ok range ∧ range.contains p = true
      else folded = none := by
  simp only [foldInRange]
  split_ifs with h
  · simp only [bind_eq_ok, requireInBounds_eq_ok, pure_eq_ok]
    grind
  · rw [pure_eq_ok]
    exact eq_comm

structure Planned (op : ArithOp) (left right : TypedValue) (folded : Option Payload) : Prop where
  sameType : left.ty = right.ty
  numeric : left.ty.isNumeric = true
  legalLeft : left.Legal
  legalRight : right.Legal
  divisor : op = .div → right.isLiteral = true → right.value.isZero = false
  folded : if left.isLiteral && right.isLiteral then
      ∃ p, folded = some p ∧ op.fold left.ty left.value right.value = .ok p ∧
        ∃ range, left.ty.bounds = .ok range ∧ range.contains p = true
    else folded = none

theorem plan_eq_ok {op : ArithOp} {left right : TypedValue} {span : Span}
    {folded : Option Payload} :
    op.plan left right span = .ok folded ↔ op.Planned left right folded := by
  have hz : (!(decide (op = .div) && right.isLiteral && right.value.isZero)) = true ↔
      (op = .div → right.isLiteral = true → right.value.isZero = false) := by
    cases right.isLiteral <;> cases right.value.isZero <;> simp
  simp only [plan, bind_eq_ok, Fault.require_eq_ok, TypedValue.requireLegal_eq_ok,
    foldInRange_eq_ok, hz, decide_eq_true_eq]
  constructor
  · intro hy
    obtain ⟨_, ht, _, hn, _, hl, _, hr, _, hz, hf⟩ := hy
    exact ⟨ht, hn, hl, hr, hz, hf⟩
  · intro h
    exact ⟨(), h.sameType, (), h.numeric, (), h.legalLeft, (), h.legalRight, (), h.divisor,
      h.folded⟩

def result (ty : ScalarType) (folded : Option Payload) (dest : ValueId) : TypedValue :=
  match folded with
  | some payload => ⟨ty, payload, true, some dest⟩
  | none => .runtime ty dest

inductive Emits (op : ArithOp) (left right : TypedValue) (folded : Option Payload) (b : Buffer) :
    TypedValue → Buffer → Prop
  | clamped {lhs rhs : ValueId} {b₁ b₂ : Buffer} {range : Bounds} :
      Emit.Holds left b lhs b₁ → Emit.Holds right b₁ rhs b₂ → left.ty.bounds = .ok range →
      Emits op left right folded b (result left.ty folded (.ofIndex (b₂.nextValue + 1)))
        (b₂.push (op.divisorCheck rhs left.ty ++ [.binary b₂.fresh op lhs rhs left.ty,
          .clampTo (.ofIndex (b₂.nextValue + 1)) b₂.fresh left.ty range]))

theorem emit_eq (op : ArithOp) (left right : TypedValue) (folded : Option Payload) :
    op.emit left right folded = (do
      let lhs ← Emit.materialize left
      let rhs ← Emit.materialize right
      if op = .div then Emit.node (.zeroCheck rhs left.ty .divisionByZero)
      let raw ← Emit.newValue
      Emit.node (.binary raw op lhs rhs left.ty)
      let dest ← Emit.clamp raw left.ty
      return result left.ty folded dest) := by
  cases folded <;> rfl

theorem emit_yields {op : ArithOp} {left right w : TypedValue} {folded : Option Payload}
    {b b' : Buffer} :
    (op.emit left right folded).Yields b w b' ↔ op.Emits left right folded b w b' := by
  rw [emit_eq]
  by_cases ho : op = .div
  · simp only [if_pos ho, Emit.bind_yields, Emit.materialize_yields, Emit.newValue_yields,
      Emit.node_yields, Emit.clamp_yields, Emit.pure_yields]
    constructor
    · intro hy
      obtain ⟨lhs, b₁, hl, rhs, b₂, hr, _, _, rfl, _, _, ⟨rfl, rfl⟩, _, _, rfl, _, _, ⟨range, hb,
        rfl, rfl⟩, rfl, rfl⟩ := hy
      have h : op.Emits left right folded b _ _ := .clamped hl hr hb
      simpa [Buffer.push, Buffer.fresh, Node.dest?, Node.defines, divisorCheck, ho] using h
    · intro hy
      obtain ⟨hl, hr, hb⟩ := hy
      refine ⟨_, _, hl, _, _, hr, (), _, rfl, _, _, ⟨rfl, rfl⟩, (), _, rfl, _, _,
        ⟨_, hb, rfl, rfl⟩, ?_, ?_⟩
      all_goals simp [Buffer.push, Buffer.fresh, Node.dest?, Node.defines, divisorCheck, ho]
  · simp only [if_neg ho, Emit.bind_yields, Emit.materialize_yields, Emit.newValue_yields,
      Emit.node_yields, Emit.clamp_yields, Emit.pure_yields]
    constructor
    · intro hy
      obtain ⟨lhs, b₁, hl, rhs, b₂, hr, _, _, ⟨rfl, rfl⟩, _, _, rfl, _, _, ⟨range, hb, rfl, rfl⟩,
        rfl, rfl⟩ := hy
      have h : op.Emits left right folded b _ _ := .clamped hl hr hb
      simpa [Buffer.push, Buffer.fresh, Node.dest?, Node.defines, divisorCheck, ho] using h
    · intro hy
      obtain ⟨hl, hr, hb⟩ := hy
      refine ⟨_, _, hl, _, _, hr, _, _, ⟨rfl, rfl⟩, (), _, rfl, _, _,
        ⟨_, hb, rfl, rfl⟩, ?_, ?_⟩
      all_goals simp [Buffer.push, Buffer.fresh, Node.dest?, Node.defines, divisorCheck, ho]

end ArithOp

theorem guard_yields {op : OperatorName} {left right w : TypedValue} {span : Span}
    {b b' : Buffer} :
    (guard op left right span).Yields b w b' ↔
      ∃ known folded, op = .known known ∧ known.Planned left right folded ∧
        known.Emits left right folded b w b' := by
  simp only [guard, Emit.bind_yields, Emit.ofExcept_yields, ArithOp.plan_eq_ok,
    ArithOp.emit_yields]
  cases op with
  | known known => simp only [OperatorName.resolve]; grind
  | unknown shown => simp [OperatorName.resolve]

end ContractGuard
