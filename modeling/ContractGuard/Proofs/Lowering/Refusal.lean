import ContractGuard.Proofs.Lowering.Relocation

/-!
# What a step refuses

A conversion or an operation that is refused blames the span that it was given, and the cause
is one of a few kinds. The span is handed from check to check, so this is shown for one check
at a time. What a procedure reads a payload with has no span to blame, and blames none.
-/

namespace ContractGuard

variable {α β : Type} {span : Span} {cause : Cause} {fault : SourceFault} {P Q : Cause → Prop}
  {b : Buffer} {v w : TypedValue} {op : ArithOp}

/-- A fault of the source lies at the span and has a cause of the kind. -/
def BlamesAt (span : Span) (P : Cause → Prop) (x : Except Fault α) : Prop :=
  ∀ fault, x = .error (.source fault) → fault.span = span ∧ P fault.cause

theorem blamesAt_ok (a : α) : BlamesAt span P (.ok a) := by
  intro fault h
  cases h

theorem blamesAt_blame (h : P cause) : BlamesAt span P (Fault.blame span cause (α := α)) := by
  intro fault hfault
  by_cases hcause : cause.Worded
  · rw [Fault.blame_of_worded hcause] at hfault
    cases hfault
    exact ⟨rfl, h⟩
  · rw [Fault.blame_of_not_worded hcause] at hfault
    cases hfault

theorem blamesAt_require {holds : Bool} (h : holds = false → P cause) :
    BlamesAt span P (Fault.require holds span cause) := by
  cases holds with
  | true => exact blamesAt_ok ()
  | false => exact blamesAt_blame (h rfl)

theorem BlamesAt.bind {x : Except Fault α} {f : α → Except Fault β} (hx : BlamesAt span P x)
    (hf : ∀ a, BlamesAt span P (f a)) : BlamesAt span P (x >>= f) := by
  cases x with
  | ok a => exact hf a
  | error e =>
    intro fault h
    obtain rfl : e = .source fault := Except.error.inj h
    exact hx fault rfl

theorem BlamesAt.mono {x : Except Fault α} (h : BlamesAt span P x) (hPQ : ∀ c, P c → Q c) :
    BlamesAt span Q x := fun fault hfault => (h fault hfault).imp_right (hPQ _)

theorem ne_source_of_relocates {x : Except Fault α} (h : ∀ f, Relocates f x x)
    (fault : SourceFault) : x ≠ .error (.source fault) := by
  rintro rfl
  -- moved to any line it would be the same fault, so it would lie on two
  have hline : ∀ line : Int, fault.span = { line := some line } := by
    intro line
    have hmoved := h fun _ => { line := some line }
    simp only [Relocates, Except.mapError, Fault.mapSpan, Except.error.injEq,
      Fault.source.injEq] at hmoved
    exact congrArg SourceFault.span hmoved
  have := (hline 0).symm.trans (hline 1)
  simp at this

theorem blamesAt_of_relocates {x : Except Fault α} (h : ∀ f, Relocates f x x) :
    BlamesAt span P x := fun fault hfault => absurd hfault (ne_source_of_relocates h fault)

inductive Cause.OfConversion (target : String) : Cause → Prop
  | unsupported : OfConversion target (.unsupportedConversion target)
  | invalid {reason : String} {construct : Option String} :
      OfConversion target (.invalidConversion reason construct)
  | outOfRange {value : Payload} {typeName : String} :
      OfConversion target (.literalOutOfRange value typeName)

theorem blamesAt_requireLegal (ty : ScalarType) (p : Payload) (h : P cause) :
    BlamesAt span P (requireLegal ty p span cause) :=
  (blamesAt_of_relocates fun _ => ty.relocates_literalInRange p).bind
    fun _ => blamesAt_require fun _ => h

theorem blamesAt_requireInBounds (ty : ScalarType) (p : Payload) (h : P cause) :
    BlamesAt span P (requireInBounds ty p span cause) :=
  (blamesAt_of_relocates fun _ => ty.relocates_bounds).bind fun _ => blamesAt_require fun _ => h

theorem TypedValue.blamesAt_requireLegal (v : TypedValue)
    (h : P (.literalOutOfRange v.value v.ty.name)) : BlamesAt span P (v.requireLegal span) := by
  simp only [TypedValue.requireLegal]
  split
  · exact ContractGuard.blamesAt_requireLegal _ _ h
  · exact blamesAt_ok ()

namespace Procedure

variable {target : ScalarType}

def InvalidConversion : Cause → Prop
  | .invalidConversion .. => True
  | _ => False

theorem blamesAt_refuse (source : ScalarType) (why : String) :
    BlamesAt span InvalidConversion (refuse source target why span) := blamesAt_blame trivial

theorem blamesAt_refuseLength (source : ScalarType) :
    BlamesAt span InvalidConversion (refuseLength source target span) := by
  simp only [refuseLength]
  split
  · exact blamesAt_refuse _ _
  · exact blamesAt_of_relocates fun _ => relocates_misuse _

theorem blamesAt_ifLiteral {payload : Except Fault Payload} (h : BlamesAt span P payload) :
    BlamesAt span P (ifLiteral v payload) := by
  simp only [ifLiteral]
  split
  · exact h
  · exact blamesAt_ok _

theorem blamesAt_wholePart (source : ScalarType) (d : Decimal) :
    BlamesAt span InvalidConversion (wholePart source target d span) := by
  simp only [wholePart]
  split
  · split
    · exact blamesAt_refuse _ _
    · exact blamesAt_ok _
  · exact blamesAt_of_relocates fun _ => relocates_misuse _
  · exact blamesAt_of_relocates fun _ => rfl
  · exact blamesAt_refuse _ _

theorem blamesAt_toInteger : BlamesAt span InvalidConversion (toInteger.run v target span) := by
  simp only [toInteger]
  cases v.ty.kind with
  | uint | int => exact (blamesAt_ifLiteral (blamesAt_ok _)).bind fun _ => blamesAt_ok _
  | decimal =>
    dsimp only
    split
    · exact (blamesAt_of_relocates fun _ => v.value.relocates_toDecimal).bind
        fun d => blamesAt_wholePart _ d
    · exact blamesAt_ok _
  | bytes =>
    dsimp only
    split
    · exact blamesAt_refuse _ _
    · refine (blamesAt_ifLiteral ?_).bind fun _ => blamesAt_ok _
      exact (blamesAt_of_relocates fun _ => v.value.relocates_toBytes).bind fun _ => blamesAt_ok _

theorem blamesAt_toDecimal : BlamesAt span InvalidConversion (toDecimal.run v target span) := by
  simp only [toDecimal]
  cases v.ty.kind with
  | decimal => exact (blamesAt_ifLiteral (blamesAt_ok _)).bind fun _ => blamesAt_ok _
  | uint | int =>
    refine (blamesAt_ifLiteral ?_).bind fun _ => blamesAt_ok _
    exact (blamesAt_of_relocates fun _ => v.value.relocates_toDecimal).bind fun _ => blamesAt_ok _
  | bytes => exact blamesAt_refuse _ _

theorem blamesAt_toBytes : BlamesAt span InvalidConversion (toBytes.run v target span) := by
  simp only [toBytes]
  cases v.ty.kind with
  | bytes =>
    dsimp only
    split
    · exact blamesAt_refuseLength _
    · exact (blamesAt_ifLiteral (blamesAt_ok _)).bind fun _ => blamesAt_ok _
  | uint =>
    dsimp only
    split
    · exact blamesAt_refuse _ _
    · refine (blamesAt_ifLiteral ?_).bind fun _ => blamesAt_ok _
      refine (blamesAt_of_relocates fun _ => v.value.relocates_toInt).bind fun n => ?_
      exact (blamesAt_of_relocates fun _ => relocates_unsignedBytes _ n).bind
        fun _ => blamesAt_ok _
  | int | decimal => exact blamesAt_refuse _ _

theorem blamesAt_builtin {p : Procedure} (h : p ∈ builtin) :
    BlamesAt span InvalidConversion (p.run v target span) := by
  simp only [builtin, List.mem_cons, List.not_mem_nil, or_false] at h
  rcases h with rfl | rfl | rfl
  · exact blamesAt_toInteger
  · exact blamesAt_toDecimal
  · exact blamesAt_toBytes

end Procedure

theorem ConversionEntry.blamesAt_plan {entry : ConversionEntry}
    (h : entry.procedure ∈ Procedure.builtin) (v : TypedValue) (target : String) :
    BlamesAt span (Cause.OfConversion target) (entry.plan v span) := by
  have hsource : BlamesAt span (Cause.OfConversion target) (entry.requireSource v span) := by
    simp only [requireSource]
    split
    · exact blamesAt_requireInBounds _ _ .outOfRange
    · exact blamesAt_ok ()
  have hrun : BlamesAt span (Cause.OfConversion target)
      (entry.procedure.run v entry.target span) := by
    refine (Procedure.blamesAt_builtin h).mono fun cause hcause => ?_
    cases cause with
    | invalidConversion => exact .invalid
    | _ => exact hcause.elim
  have hresult : ∀ converted, BlamesAt span (Cause.OfConversion target)
      (entry.requireResult v converted span) := by
    intro converted
    simp only [requireResult]
    split
    · exact blamesAt_requireLegal _ _ .outOfRange
    · exact blamesAt_ok ()
  refine (v.blamesAt_requireLegal .outOfRange).bind fun _ => hsource.bind fun _ => ?_
  exact hrun.bind fun converted => (hresult converted).bind fun _ => blamesAt_ok _

namespace Registry

/-- It is closed, and whatever was chosen for a type is a procedure that comes with it. -/
def BuiltIn (r : Registry) : Prop :=
  ∃ entries, r = closed entries ∧ ∀ entry ∈ entries, entry.procedure ∈ Procedure.builtin

theorem forKind_mem_builtin (kind : ScalarKind) : Procedure.forKind kind ∈ Procedure.builtin := by
  cases kind <;> simp [Procedure.forKind, Procedure.builtin]

theorem builtIn_entriesOf {log : List (String × Procedure)}
    (h : ∀ entry ∈ log, entry.2 ∈ Procedure.builtin) : (closed (entriesOf log)).BuiltIn := by
  refine ⟨_, rfl, fun entry hentry => ?_⟩
  obtain ⟨ty, -, hmap⟩ := List.mem_filterMap.mp hentry
  obtain ⟨p, hlookup, rfl⟩ := Option.map_eq_some_iff.mp hmap
  obtain ⟨before, rest, rfl, -⟩ := List.lookup_eq_some_iff.mp hlookup
  exact h (ty.name, p) (by simp)

theorem builtIn_default : default.BuiltIn := by
  refine builtIn_entriesOf fun entry hentry => ?_
  obtain ⟨ty, -, rfl⟩ := List.mem_map.mp hentry
  exact forKind_mem_builtin ty.kind

/-- The conversion of the value is refused, whatever code was emitted before. -/
inductive Refuses (r : Registry) (v : TypedValue) (target : String) (span : Span)
    (fault : SourceFault) : Prop
  | unsupported : r.resolve target span = .error (.source fault) → Refuses r v target span fault
  | planned {entry : ConversionEntry} :
      r.resolve target span = .ok entry → entry.plan v span = .error (.source fault) →
      Refuses r v target span fault

variable {r : Registry} {target : String}

theorem blamesAt_resolve (r : Registry) :
    BlamesAt span (Cause.OfConversion target) (r.resolve target span) := by
  cases r with
  | opened pending => exact blamesAt_of_relocates fun _ => rfl
  | closed entries =>
    simp only [resolve]
    split
    · exact blamesAt_ok _
    · exact blamesAt_blame .unsupported

theorem Refuses.blames (h : r.Refuses v target span fault) (hr : r.BuiltIn) :
    fault.span = span ∧ fault.cause.OfConversion target := by
  obtain ⟨entries, rfl, hbuiltin⟩ := hr
  cases h with
  | unsupported hresolve => exact blamesAt_resolve _ fault hresolve
  | planned hresolve hplan =>
    simp only [resolve] at hresolve
    split at hresolve
    · next found hfind =>
      obtain rfl := Except.ok.inj hresolve
      exact ConversionEntry.blamesAt_plan (hbuiltin _ (List.mem_of_find?_eq_some hfind)) v target
        fault hplan
    · simp at hresolve

end Registry

inductive Cause.OfOperation (op : ArithOp) : Cause → Prop
  | operandTypes {left right : String} :
      OfOperation op (.typeMismatch left right (some op.name))
  | nonNumeric {typeName : String} : OfOperation op (.nonNumericOperand op.name typeName)
  | divisionByZero : op = .div → OfOperation op .divisionByZero
  | overflow {typeName : String} {result : Payload} :
      OfOperation op (.overflowAtCompileTime op.name typeName result)
  | outOfRange {value : Payload} {typeName : String} :
      OfOperation op (.literalOutOfRange value typeName)

namespace ArithOp

theorem blamesAt_foldInRange (op : ArithOp) (v w : TypedValue) :
    BlamesAt span (Cause.OfOperation op) (op.foldInRange v w span) := by
  simp only [foldInRange]
  split
  · refine (blamesAt_of_relocates fun _ => op.relocates_fold _ _ _).bind fun _ => ?_
    exact (blamesAt_requireInBounds _ _ .overflow).bind fun _ => blamesAt_ok _
  · exact blamesAt_ok _

theorem blamesAt_plan (op : ArithOp) (v w : TypedValue) :
    BlamesAt span (Cause.OfOperation op) (op.plan v w span) := by
  refine (blamesAt_require fun _ => .operandTypes).bind fun _ => ?_
  refine (blamesAt_require fun _ => .nonNumeric).bind fun _ => ?_
  refine (v.blamesAt_requireLegal .outOfRange).bind fun _ => ?_
  refine (w.blamesAt_requireLegal .outOfRange).bind fun _ => ?_
  refine (blamesAt_require fun hzero => .divisionByZero ?_).bind fun _ =>
    op.blamesAt_foldInRange v w
  simp only [Bool.not_eq_false', Bool.and_eq_true, decide_eq_true_eq] at hzero
  exact hzero.1.1

end ArithOp

namespace Emit

def Faults (x : Emit α) (b : Buffer) (fault : SourceFault) : Prop :=
  (x.run b).1 = .error (.source fault)

theorem not_faults_of_relocates {x : Emit α} (h : ∀ f, Relocates f x x) : ¬ Faults x b fault :=
  ne_source_of_relocates (fun f => congrArg Prod.fst (h f b)) fault

@[simp] theorem pure_faults {a : α} : ¬ Faults (pure a) b fault :=
  not_faults_of_relocates fun _ => relocates_pure a

@[simp] theorem get_faults : ¬ Faults get b fault := not_faults_of_relocates fun _ => relocates_get

@[simp] theorem newValue_faults : ¬ Faults newValue b fault :=
  not_faults_of_relocates fun _ => relocates_newValue

@[simp] theorem node_faults {n : Node} : ¬ Faults (node n) b fault :=
  not_faults_of_relocates fun _ => relocates_node n

@[simp] theorem materialize_faults : ¬ Faults (materialize v) b fault :=
  not_faults_of_relocates fun _ => relocates_materialize v

@[simp] theorem bind_faults {x : Emit α} {f : α → Emit β} :
    Faults (x >>= f) b fault ↔
      Faults x b fault ∨ ∃ a b₁, Yields x b a b₁ ∧ Faults (f a) b₁ fault := by
  simp only [Faults, Yields]
  change ((ExceptT.bindCont f (x.run b).1).run (x.run b).2).1 = _ ↔ _
  generalize x.run b = y
  obtain ⟨e | a, b₁⟩ := y
  · change (.error e : Except Fault β) = _ ↔ (.error e : Except Fault α) = _ ∨
      ∃ a b₂, ((.error e, b₁) : Except Fault α × Buffer) = (.ok a, b₂) ∧ _
    simp
  · change ((f a).run b₁).1 = _ ↔ (.ok a : Except Fault α) = _ ∨
      ∃ a' b₂, ((.ok a, b₁) : Except Fault α × Buffer) = (.ok a', b₂) ∧ _
    simp

@[simp] theorem ofExcept_faults {x : Except Fault α} :
    Faults (ofExcept x) b fault ↔ x = .error (.source fault) := Iff.rfl

@[simp] theorem throw_faults {e : Fault} :
    Faults (throw e : Emit α) b fault ↔ e = .source fault := by
  change (.error e : Except Fault α) = _ ↔ _
  simp

end Emit

theorem Registry.convert_faults {r : Registry} {target : String} :
    (r.convert v target span).Faults b fault ↔ r.Refuses v target span fault := by
  have hemit : ∀ (entry : ConversionEntry) converted b,
      ¬ (entry.emit v converted).Faults b fault := fun entry converted _ =>
    Emit.not_faults_of_relocates fun _ => entry.relocates_emit v converted
  simp only [convert, Emit.bind_faults, Emit.ofExcept_faults, Emit.ofExcept_yields, hemit,
    and_false, exists_false, or_false]
  constructor
  · rintro (hresolve | ⟨entry, _, ⟨hresolve, -⟩, hplan⟩)
    · exact .unsupported hresolve
    · exact .planned hresolve hplan
  · rintro (hresolve | ⟨hresolve, hplan⟩)
    · exact .inl hresolve
    · exact .inr ⟨_, b, ⟨hresolve, rfl⟩, hplan⟩

theorem guard_faults {op : OperatorName} :
    (guard op v w span).Faults b fault ↔
      ∃ known, op = .known known ∧ known.plan v w span = .error (.source fault) := by
  have hemit : ∀ (op : ArithOp) folded b, ¬ (op.emit v w folded).Faults b fault :=
    fun op folded _ => Emit.not_faults_of_relocates fun _ => op.relocates_emit v w folded
  simp only [guard, Emit.bind_faults, Emit.ofExcept_faults, Emit.ofExcept_yields, hemit,
    and_false, exists_false, or_false]
  cases op with
  | known known => simp [OperatorName.resolve]
  | unknown shown => simp [OperatorName.resolve]

end ContractGuard
