import ContractGuard.Proofs.Lowering.Relocation
import ContractGuard.Proofs.Syntax.Concatenation
import ContractGuard.Proofs.Unit.Outcomes

/-!
# Units of joined texts

Declarations share nothing: neither value ids nor locals outlive one, and the registry is
closed. So where one text stands below another, the unit holds the results for the first and
then those for the second, and these differ from the results for the second alone only in the
lines of their diagnostics.
-/

namespace ContractGuard

variable {f : Span → Span} {decls : List FunctionDecl} {o : Options} {u v : CompiledUnit}

def Diagnostic.mapSpan (f : Span → Span) (d : Diagnostic) : Diagnostic :=
  { d with span := f d.span }

def FunctionResult.mapSpans (f : Span → Span) (r : FunctionResult) : FunctionResult :=
  { r with diagnostics := r.diagnostics.map (Diagnostic.mapSpan f) }

theorem FunctionDecl.compile_mapSpans (decl : FunctionDecl) :
    (decl.mapSpans f).compile .default =
      (decl.compile .default).map (FunctionResult.mapSpans f) := by
  have hattributes : (decl.mapSpans f).attributes = decl.attributes := rfl
  have hname : (decl.mapSpans f).name = decl.name := rfl
  have hspan : (decl.mapSpans f).span = f decl.span := rfl
  have hlower : (decl.mapSpans f).lower .default =
      (decl.lower .default).mapError (Fault.mapSpan f) := decl.relocates_lower
  simp only [compile, hattributes, hname, hspan, hlower]
  cases haccepted : (Attribute.validate decl.attributes).isAccepted with
  | true =>
    cases decl.lower .default with
    | ok code => rfl
    | error e => cases e <;> rfl
  | false =>
    obtain ⟨cause, hcause⟩ := Attribute.validate_cause haccepted decl.name
    simp only [Verdict.toFault, hcause]
    rfl

theorem Diagnostic.isError_mapSpan (d : Diagnostic) : (d.mapSpan f).isError = d.isError := rfl

namespace CompiledUnit

theorem answers_declarations :
    u.Answers (.declarations decls) ↔ u.diagnostics = [] ∧
      List.Forall₂ (fun decl r => decl.compile .default = .ok r ∧ r.name = decl.name) decls
        u.functions := by
  constructor
  · intro h
    cases h with
    | compiled hnone hall => exact ⟨hnone, hall⟩
  · exact fun ⟨hnone, hall⟩ => .compiled hnone hall

/-- The results of the first unit and then those of the second, these at other spans. -/
def below (f : Span → Span) (u v : CompiledUnit) : CompiledUnit :=
  { functions := u.functions ++ v.functions.map (FunctionResult.mapSpans f) }

theorem exitCode_below (hu : u.diagnostics = []) (hv : v.diagnostics = []) :
    (below f u v).summary.exitCode = 0 ↔ u.summary.exitCode = 0 ∧ v.summary.exitCode = 0 := by
  rw [exitCode_eq_zero rfl, exitCode_eq_zero hu, exitCode_eq_zero hv]
  simp [below, FunctionResult.mapSpans, or_imp, forall_and, Diagnostic.isError_mapSpan]

theorem ofDecls_below {decls₁ decls₂ : List FunctionDecl} (ho : o.validate = .ok ())
    (hu : u.Answers (.declarations decls₁)) (hv : v.Answers (.declarations decls₂)) :
    ofDecls (decls₁ ++ decls₂.map (FunctionDecl.mapSpans f)) o .default = .ok (below f u v) := by
  obtain ⟨-, hall₁⟩ := answers_declarations.mp hu
  obtain ⟨-, hall₂⟩ := answers_declarations.mp hv
  have hmoved : List.Forall₂ (fun decl r => decl.compile .default = .ok r)
      (decls₂.map (FunctionDecl.mapSpans f)) (v.functions.map (FunctionResult.mapSpans f)) := by
    rw [List.forall₂_map_left_iff, List.forall₂_map_right_iff]
    refine hall₂.imp fun decl r hr => ?_
    rw [decl.compile_mapSpans, hr.1]
    rfl
  exact ofDecls_ok ho (List.rel_append (hall₁.imp fun _ _ hr => hr.1) hmoved)

/-- A text that stands below another is compiled as it is alone, only further down, and so is
the text above it. -/
theorem ofSource_append {s₁ s₂ : String} {decls₁ decls₂ : List FunctionDecl}
    (h₁ : Reading.ofSource s₁ o.file = .ok (.declarations decls₁))
    (h₂ : Reading.ofSource s₂ o.file = .ok (.declarations decls₂)) :
    (o.validate = .ok () → ∃ u v w, ofSource s₁ o = .ok u ∧ ofSource s₂ o = .ok v ∧
      ofSource (s₁ ++ "\n" ++ s₂) o = .ok w ∧
      w = below (Span.shift (s₁.toList.count '\n' + 1)) u v ∧
      (w.summary.exitCode = 0 ↔ u.summary.exitCode = 0 ∧ v.summary.exitCode = 0)) ∧
    ∀ e, o.validate = .error e → ofSource s₁ o = .error e ∧ ofSource s₂ o = .error e ∧
      ofSource (s₁ ++ "\n" ++ s₂) o = .error e := by
  refine ⟨fun ho => ?_, fun e he => ?_⟩
  · obtain ⟨u, hu, hanswers₁⟩ := ofSource_of_declarations ho h₁
    obtain ⟨v, hv, hanswers₂⟩ := ofSource_of_declarations ho h₂
    have hnone₁ := (answers_declarations.mp hanswers₁).1
    have hnone₂ := (answers_declarations.mp hanswers₂).1
    refine ⟨u, v, _, hu, hv, ?_, rfl, exitCode_below hnone₁ hnone₂⟩
    rw [ofSource_eq ho, Reading.declarations_append h₁ h₂]
    exact ofDecls_below ho hanswers₁ hanswers₂
  · have hinvalid : ∀ source, ofSource source o = .error e := by
      intro source
      rw [ofSource, he]
      rfl
    exact ⟨hinvalid s₁, hinvalid s₂, hinvalid _⟩

theorem ofSource_append_comment :
    ∃ u v w, ofSource "@public fn f() \x7b\x7d\n// end" {} = .ok u ∧
      ofSource "fn g() \x7b\x7d" {} = .ok v ∧
      ofSource "@public fn f() \x7b\x7d\n// end\nfn g() \x7b\x7d" {} = .ok w ∧
      w = below (Span.shift 2) u v ∧
      (w.summary.exitCode = 0 ↔ u.summary.exitCode = 0 ∧ v.summary.exitCode = 0) := by
  have hf : Reading.ofSource "@public fn f() \x7b\x7d\n// end" none =
      .ok (.declarations [⟨"f", [.text "public"], [], none, [],
        ⟨none, some 1, some 1, some 1, some 18⟩⟩]) := by
    decide +kernel
  have hg : Reading.ofSource "fn g() \x7b\x7d" none =
      .ok (.declarations [⟨"g", [], [], none, [],
        ⟨none, some 1, some 1, some 1, some 10⟩⟩]) := by
    decide +kernel
  exact (@ofSource_append {} _ _ _ _ hf hg).1 rfl

end CompiledUnit

end ContractGuard
