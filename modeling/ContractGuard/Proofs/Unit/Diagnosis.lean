import ContractGuard.Proofs.Lowering.FirstFault
import ContractGuard.Proofs.Unit.Outcomes

/-!
# Where a diagnostic points

The diagnostic of a declaration is that of its first fault, and lies at the part of the
declaration that the fault is about. As long as every part says where it stands, a diagnostic
therefore says so as well. Statements after the one that faults play no part in it.
-/

namespace ContractGuard

variable {r : Registry} {decl : FunctionDecl} {f : FunctionResult} {d : Diagnostic} {n : ℕ}
  {site : Site} {fault : SourceFault}

theorem Verdict.toFault_eq_ok {v : Verdict} {function : String} {span : Span}
    (h : v.toFault function span = .ok fault) :
    fault.span = span ∧ fault.cause.isAttributeRejection = true := by
  obtain ⟨state, _ | reason, detail⟩ := v
  · cases h
  · cases reason <;> cases h <;> exact ⟨rfl, rfl⟩

namespace FunctionDecl

/-- Attributes are judged first, and only those of an accepted declaration let it be lowered.
The number says how much of the body is looked at. -/
inductive FirstFault (decl : FunctionDecl) (r : Registry) : ℕ → Site → SourceFault → Prop
  | attributes {fault : SourceFault} :
      (Attribute.validate decl.attributes).isAccepted = false →
      (Attribute.validate decl.attributes).toFault decl.name decl.span = .ok fault →
      FirstFault decl r 0 .declaration fault
  | lowering {n : ℕ} {site : Site} {fault : SourceFault} :
      (Attribute.validate decl.attributes).isAccepted = true →
      Lowering.FunctionFaults r decl n site fault → FirstFault decl r n site fault

inductive Bears (decl : FunctionDecl) : Site → Cause → Prop
  | rejection {cause : Cause} : cause.isAttributeRejection = true → Bears decl .declaration cause
  | lowering {site : Site} {cause : Cause} : decl.Refuses site cause → Bears decl site cause

namespace FirstFault

theorem mem_sites (h : decl.FirstFault r n site fault) : site ∈ decl.sites := by
  cases h with
  | attributes _ _ => exact List.mem_cons_self
  | lowering _ hfaults => exact hfaults.mem_sites

theorem bears (h : decl.FirstFault r n site fault) (hr : r.BuiltIn) :
    fault.span = decl.spanOf site ∧ decl.Bears site fault.cause := by
  cases h with
  | attributes _ hfault => exact (Verdict.toFault_eq_ok hfault).imp_right .rejection
  | lowering _ hfaults => exact (hfaults.refuses hr).imp_right .lowering

theorem of_take {body' : List Stmt} (h : decl.FirstFault r n site fault)
    (htake : body'.take n = decl.body.take n) :
    FirstFault { decl with body := body' } r n site fault := by
  cases h with
  | attributes hrejected hfault => exact .attributes hrejected hfault
  | lowering haccepted hfaults => exact .lowering haccepted (hfaults.of_take htake)

theorem compile (h : decl.FirstFault r n site fault) :
    decl.compile r =
      .ok ⟨decl.name, Attribute.validate decl.attributes, none, [fault.toDiagnostic]⟩ := by
  cases h with
  | attributes hrejected hfault =>
    obtain ⟨fault', hfault', hcompile⟩ := compile_rejected hrejected r
    obtain rfl := Except.ok.inj (hfault.symm.trans hfault')
    exact hcompile
  | lowering haccepted hfaults =>
    exact compile_blamed haccepted (Lowering.lower_faults.mpr ⟨n, site, hfaults⟩)

end FirstFault

theorem firstFault_of_compile (hf : decl.compile r = .ok f) (hd : d ∈ f.diagnostics) :
    ∃ n site fault, decl.FirstFault r n site fault ∧ d = fault.toDiagnostic := by
  have hfault : ∃ n site fault, decl.FirstFault r n site fault := by
    cases (outcome_of_compile hf).2 with
    | compiled _ _ _ hnone => simp [hnone] at hd
    | diagnosed hraises =>
      cases hraises with
      | rejection hrejected hfault => exact ⟨_, _, _, .attributes hrejected hfault⟩
      | lowering haccepted hlower =>
        obtain ⟨n, site, hfaults⟩ := Lowering.lower_faults.mp hlower
        exact ⟨n, site, _, .lowering haccepted hfaults⟩
  obtain ⟨n, site, fault, h⟩ := hfault
  obtain rfl := Except.ok.inj (hf.symm.trans h.compile)
  exact ⟨n, site, fault, h, List.mem_singleton.mp hd⟩

/-- With the procedures that come with the registry, and with spans on every part of a
declaration, its diagnostic is that of the first fault in evaluation order and has the span of
the part that the fault is about. Whatever the body holds after the statements that were looked
at, the diagnostic is the same. A first fault is always reported. -/
theorem compile_blames_first (hr : r.BuiltIn) (hspans : decl.Spanned) :
    (∀ f d, decl.compile r = .ok f → d ∈ f.diagnostics →
      ∃ n site fault, decl.FirstFault r n site fault ∧ d = fault.toDiagnostic ∧
        site ∈ decl.sites ∧ d.span = decl.spanOf site ∧ d.span ≠ {} ∧
        decl.Bears site fault.cause ∧
        ∀ body', body'.take n = decl.body.take n →
          compile { decl with body := body' } r = .ok f) ∧
    ∀ n site fault, decl.FirstFault r n site fault →
      ∃ f, decl.compile r = .ok f ∧ f.diagnostics = [fault.toDiagnostic] := by
  refine ⟨fun f d hf hd => ?_, fun n site fault h => ⟨_, h.compile, rfl⟩⟩
  obtain ⟨n, site, fault, h, rfl⟩ := firstFault_of_compile hf hd
  obtain ⟨hspan, hbears⟩ := h.bears hr
  have hmem := h.mem_sites
  refine ⟨n, site, fault, h, rfl, hmem, hspan, ?_, hbears, fun body' htake => ?_⟩
  · rw [show fault.toDiagnostic.span = fault.span from rfl, hspan]
    exact hspans site hmem
  · rw [(h.of_take htake).compile, ← hf, h.compile]

def overflowing : FunctionDecl where
  name := "f"
  attributes := [.known .isPublic]
  params := [⟨"a", "uint8", { line := some 1 }⟩]
  returnType := none
  body :=
    [.bind "b" (.conversion "uint8"
        (.literal (.int 300) (some (.uint 16)) { line := some 2, column := some 15 })
        { line := some 2, column := some 9 }) { line := some 2, column := some 1 },
      .eval (.name "c" { line := some 3, column := some 5 }) { line := some 3, column := some 1 }]
  span := { line := some 1 }

theorem compile_blames_first_overflowing :
    ∃ f d n site fault, overflowing.compile .default = .ok f ∧ d ∈ f.diagnostics ∧
      d.span = { line := some 2, column := some 9 } ∧
      overflowing.FirstFault .default n site fault ∧ d = fault.toDiagnostic ∧
      site ∈ overflowing.sites ∧ d.span = overflowing.spanOf site ∧
      overflowing.Bears site fault.cause := by
  have hspan : (overflowing.compile .default).toOption.map (·.diagnostics.map (·.span)) =
      some [{ line := some 2, column := some 9 }] := by decide +kernel
  cases hf : overflowing.compile .default with
  | error e => simp [hf, Except.toOption] at hspan
  | ok f =>
    simp only [hf, Except.toOption, Option.map_some, Option.some.injEq] at hspan
    obtain ⟨d, hd, hdspan⟩ := List.map_eq_singleton_iff.mp hspan
    have hmem : d ∈ f.diagnostics := by simp [hd]
    obtain ⟨n, site, fault, h, hdiagnostic, hsite, hat, -, hbears, -⟩ :=
      (compile_blames_first Registry.builtIn_default (by decide)).1 f d hf hmem
    exact ⟨f, d, n, site, fault, rfl, hmem, hdspan, h, hdiagnostic, hsite, hat, hbears⟩

end FunctionDecl

end ContractGuard
