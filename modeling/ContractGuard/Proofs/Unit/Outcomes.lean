import ContractGuard.Proofs.Lowering.Derivation
import ContractGuard.Proofs.Unit.Answers

/-!
# One outcome for each declaration

Whatever a declaration raises that is a fault of the source stays with it: it becomes the
one diagnostic of that declaration, and the others are compiled as if they stood alone. A
unit fails only with an error of another kind, and then with the first one in the order of
the declarations. Neither the registry nor the options make a difference to this.
-/

namespace ContractGuard

variable {decl : FunctionDecl} {decls : List FunctionDecl} {r : Registry} {o : Options}
  {f : FunctionResult} {e : Fault}

namespace FunctionDecl

inductive Raises (decl : FunctionDecl) (r : Registry) : Fault → Prop
  | rejection {fault : SourceFault} :
      (Attribute.validate decl.attributes).isAccepted = false →
      (Attribute.validate decl.attributes).toFault decl.name decl.span = .ok fault →
      Raises decl r (.source fault)
  | lowering {e : Fault} :
      (Attribute.validate decl.attributes).isAccepted = true → decl.lower r = .error e →
      Raises decl r e

/-- It raises something that is no fault of the source. -/
def Breaks (decl : FunctionDecl) (r : Registry) (e : Fault) : Prop :=
  decl.Raises r e ∧ ∀ fault, e ≠ .source fault

/-- The code of an accepted declaration, or the one diagnostic for what it raises. -/
inductive Outcome (decl : FunctionDecl) (r : Registry) (f : FunctionResult) : Prop
  | compiled {code : CompiledFunction} :
      f.verdict.isAccepted = true → decl.lower r = .ok code → f.compiled = some code →
      f.diagnostics = [] → Outcome decl r f
  | diagnosed {fault : SourceFault} {d : Diagnostic} :
      decl.Raises r (.source fault) → f.compiled = none → f.diagnostics = [d] →
      d.severity = "error" → d.phase = some "safety" → d.code = some fault.cause.code →
      Outcome decl r f

theorem compile_rejected (h : (Attribute.validate decl.attributes).isAccepted = false)
    (r : Registry) :
    ∃ fault, (Attribute.validate decl.attributes).toFault decl.name decl.span = .ok fault ∧
      decl.compile r =
        .ok ⟨decl.name, Attribute.validate decl.attributes, none, [fault.toDiagnostic]⟩ := by
  obtain ⟨cause, hcause⟩ := Attribute.validate_cause h decl.name
  have hfault : (Attribute.validate decl.attributes).toFault decl.name decl.span =
      .ok ⟨cause, decl.span⟩ := by
    simp only [Verdict.toFault, hcause]
  exact ⟨_, hfault, by simp only [compile, h, hfault, Bool.false_eq_true, if_false]⟩

section

variable (haccepted : (Attribute.validate decl.attributes).isAccepted = true)

include haccepted

theorem compile_lowered {code : CompiledFunction} (h : decl.lower r = .ok code) :
    decl.compile r = .ok ⟨decl.name, Attribute.validate decl.attributes, some code, []⟩ := by
  simp only [compile, haccepted, h, if_true]

theorem compile_blamed {fault : SourceFault} (h : decl.lower r = .error (.source fault)) :
    decl.compile r =
      .ok ⟨decl.name, Attribute.validate decl.attributes, none, [fault.toDiagnostic]⟩ := by
  simp only [compile, haccepted, h, if_true]

theorem compile_broken (h : decl.lower r = .error e) (hsource : ∀ fault, e ≠ .source fault) :
    decl.compile r = .error e := by
  simp only [compile, haccepted, h, if_true]

end

theorem not_breaks_of_rejected (h : (Attribute.validate decl.attributes).isAccepted = false) :
    ¬ decl.Breaks r e := by
  rintro ⟨hraises, hsource⟩
  cases hraises with
  | rejection _ _ => exact hsource _ rfl
  | lowering haccepted _ => simp [h] at haccepted

theorem compile_of_breaks (h : decl.Breaks r e) : decl.compile r = .error e := by
  obtain ⟨hraises, hsource⟩ := h
  cases hraises with
  | rejection _ _ => exact absurd rfl (hsource _)
  | lowering haccepted hlower => exact compile_broken haccepted hlower hsource

theorem compile_cases (decl : FunctionDecl) (r : Registry) :
    (∃ f, decl.compile r = .ok f ∧ f.name = decl.name ∧ decl.Outcome r f) ∨
      ∃ e, decl.Breaks r e := by
  cases haccepted : (Attribute.validate decl.attributes).isAccepted with
  | false =>
    obtain ⟨fault, hfault, hcompile⟩ := compile_rejected haccepted r
    exact .inl ⟨_, hcompile, rfl, .diagnosed (.rejection haccepted hfault) rfl rfl rfl rfl rfl⟩
  | true =>
    cases hlower : decl.lower r with
    | ok code =>
      exact .inl ⟨_, compile_lowered haccepted hlower, rfl, .compiled haccepted hlower rfl rfl⟩
    | error e =>
      by_cases hsource : ∃ fault, e = .source fault
      · obtain ⟨fault, rfl⟩ := hsource
        exact .inl ⟨_, compile_blamed haccepted hlower, rfl,
          .diagnosed (.lowering haccepted hlower) rfl rfl rfl rfl rfl⟩
      · exact .inr ⟨e, .lowering haccepted hlower, not_exists.mp hsource⟩

theorem compile_eq_error : decl.compile r = .error e ↔ decl.Breaks r e := by
  refine ⟨fun h => ?_, compile_of_breaks⟩
  rcases decl.compile_cases r with ⟨f, hf, -⟩ | ⟨e', hbreaks⟩
  · simp [hf] at h
  · obtain rfl := Except.error.inj ((compile_of_breaks hbreaks).symm.trans h)
    exact hbreaks

theorem outcome_of_compile (h : decl.compile r = .ok f) :
    f.name = decl.name ∧ decl.Outcome r f := by
  rcases decl.compile_cases r with ⟨f', hf, houtcome⟩ | ⟨e, hbreaks⟩
  · obtain rfl := Except.ok.inj (hf.symm.trans h)
    exact houtcome
  · simp [compile_of_breaks hbreaks] at h

end FunctionDecl

theorem mapM_cases {ε α β : Type} (f : α → Except ε β) (xs : List α) :
    (∃ ys, List.Forall₂ (fun x y => f x = .ok y) xs ys) ∨
      ∃ before x rest e, xs = before ++ x :: rest ∧ (∀ y ∈ before, ∃ b, f y = .ok b) ∧
        f x = .error e ∧ xs.mapM f = .error e := by
  induction xs with
  | nil => exact .inl ⟨[], .nil⟩
  | cons x xs ih =>
    rw [List.mapM_cons]
    cases hx : f x with
    | error e => exact .inr ⟨[], x, xs, e, rfl, by simp, hx, rfl⟩
    | ok y =>
      rcases ih with ⟨ys, hall⟩ | ⟨before, x', rest, e, rfl, hbefore, hx', herror⟩
      · exact .inl ⟨y :: ys, .cons hx hall⟩
      · refine .inr ⟨x :: before, x', rest, e, rfl, ?_, hx', by rw [herror]; rfl⟩
        exact List.forall_mem_cons.mpr ⟨⟨y, hx⟩, hbefore⟩

namespace FunctionResult

def Single (f : FunctionResult) : Prop :=
  (f.isOk = true ∧ f.diagnostics = []) ∨
    (f.isOk = false ∧ ∃ d, f.diagnostics = [d] ∧ d.isError = true)

variable {fs : List FunctionResult}

theorem single_of_outcome (h : decl.Outcome r f) : f.Single := by
  cases h with
  | compiled _ _ hcode hdiagnostics =>
    exact .inl ⟨by simp [isOk, hcode], hdiagnostics⟩
  | diagnosed _ hcode hdiagnostics herror _ _ =>
    exact .inr ⟨by simp [isOk, hcode], _, hdiagnostics, by simp [Diagnostic.isError, herror]⟩

theorem length_filter_add_diagnostics (h : ∀ f ∈ fs, f.Single) :
    (fs.filter isOk).length + (fs.flatMap (·.diagnostics)).length = fs.length := by
  induction fs with
  | nil => rfl
  | cons f fs ih =>
    obtain ⟨hf, hfs⟩ := List.forall_mem_cons.mp h
    have hcount := ih hfs
    rw [List.flatMap_cons, List.length_append, List.length_cons]
    rcases hf with ⟨hok, hdiagnostics⟩ | ⟨hok, d, hdiagnostics, -⟩
    · rw [List.filter_cons_of_pos hok, hdiagnostics, List.length_cons, List.length_nil]
      omega
    · rw [List.filter_cons_of_neg (by simp [hok]), hdiagnostics, List.length_singleton]
      omega

theorem no_error_iff (h : ∀ f ∈ fs, f.Single) :
    (∀ f ∈ fs, ∀ d ∈ f.diagnostics, d.isError = false) ↔ ∀ f ∈ fs, f.isOk = true := by
  refine forall₂_congr fun f hf => ?_
  rcases h f hf with ⟨hok, hdiagnostics⟩ | ⟨hok, d, hdiagnostics, herror⟩
  · simp [hok, hdiagnostics]
  · simp [hok, hdiagnostics, herror]

end FunctionResult

namespace CompiledUnit

/-- The results of the declarations, each as if it stood alone. -/
structure Settles (u : CompiledUnit) (decls : List FunctionDecl) (r : Registry) : Prop where
  results : List.Forall₂ (fun decl f =>
    decl.compile r = .ok f ∧ f.name = decl.name ∧ decl.Outcome r f) decls u.functions
  diagnostics : u.diagnostics = []
  exitCode : u.summary.exitCode = 0 ↔ ∀ f ∈ u.functions, f.isOk = true
  count : u.summary.functions.length + u.summary.diagnostics.length = decls.length

theorem exitCode_eq_zero {u : CompiledUnit} (h : u.diagnostics = []) :
    u.summary.exitCode = 0 ↔ ∀ r ∈ u.functions, ∀ d ∈ r.diagnostics, d.isError = false := by
  simp [summary, hasErrors, allDiagnostics, h]

theorem settles_of_results {fs : List FunctionResult}
    (h : List.Forall₂ (fun decl f => decl.compile r = .ok f) decls fs) :
    Settles { functions := fs } decls r := by
  have hresults : List.Forall₂ (fun decl f =>
      decl.compile r = .ok f ∧ f.name = decl.name ∧ decl.Outcome r f) decls fs :=
    h.imp fun _ _ hf => ⟨hf, FunctionDecl.outcome_of_compile hf⟩
  have hsingle : ∀ f ∈ fs, f.Single := by
    clear h
    induction hresults with
    | nil => simp
    | cons hf _ ih => exact List.forall_mem_cons.mpr ⟨FunctionResult.single_of_outcome hf.2.2, ih⟩
  refine ⟨hresults, rfl, ?_, ?_⟩
  · rw [exitCode_eq_zero rfl]
    exact FunctionResult.no_error_iff hsingle
  · rw [h.length_eq, ← FunctionResult.length_filter_add_diagnostics hsingle]
    simp [summary, allDiagnostics]

theorem ofDecls_error (ho : o.validate = .ok ())
    (h : decls.mapM (FunctionDecl.compile · r) = .error e) : ofDecls decls o r = .error e := by
  rw [ofDecls, ho]
  change (decls.mapM (FunctionDecl.compile · r) >>= _) = _
  rw [h]
  rfl

theorem ofDecls_cases (ho : o.validate = .ok ()) (decls : List FunctionDecl) (r : Registry) :
    (∃ u, ofDecls decls o r = .ok u ∧ u.Settles decls r) ∨
      ∃ before decl rest e, decls = before ++ decl :: rest ∧ decl.Breaks r e ∧
        (∀ d ∈ before, ∀ e', ¬ d.Breaks r e') ∧ ofDecls decls o r = .error e := by
  rcases mapM_cases (FunctionDecl.compile · r) decls with
    ⟨fs, hall⟩ | ⟨before, decl, rest, e, hdecls, hbefore, hdecl, herror⟩
  · exact .inl ⟨_, ofDecls_ok ho hall, settles_of_results hall⟩
  · refine .inr ⟨before, decl, rest, e, hdecls, FunctionDecl.compile_eq_error.mp hdecl, ?_,
      ofDecls_error ho herror⟩
    intro d hd e' hbreaks
    obtain ⟨f, hf⟩ := hbefore d hd
    simp [FunctionDecl.compile_of_breaks hbreaks] at hf

theorem Settles.not_breaks {u : CompiledUnit} (h : u.Settles decls r) :
    ∀ decl ∈ decls, ∀ e, ¬ decl.Breaks r e := by
  obtain ⟨hresults, -, -, -⟩ := h
  generalize u.functions = fs at hresults
  induction hresults with
  | nil => simp
  | cons hf _ ih =>
    refine List.forall_mem_cons.mpr ⟨fun e hbreaks => ?_, ih⟩
    simp [FunctionDecl.compile_of_breaks hbreaks] at hf

/-- Under options with a number of workers a unit fails exactly if one of its declarations
breaks, and with the error of the first that does. Otherwise it settles all of them. -/
theorem ofDecls_outcomes (decls : List FunctionDecl) (r : Registry) (ho : o.validate = .ok ()) :
    ((∃ e, ofDecls decls o r = .error e) ↔ ∃ decl ∈ decls, ∃ e, decl.Breaks r e) ∧
    (∀ e, ofDecls decls o r = .error e →
      ∃ before decl rest, decls = before ++ decl :: rest ∧ decl.Breaks r e ∧
        ∀ d ∈ before, ∀ e', ¬ d.Breaks r e') ∧
    ((∀ decl ∈ decls, ∀ e, ¬ decl.Breaks r e) →
      ∃ u, ofDecls decls o r = .ok u ∧ u.Settles decls r) ∧
    ∀ decl : FunctionDecl, (Attribute.validate decl.attributes).isAccepted = false →
      ∀ e, ¬ decl.Breaks r e := by
  have hrejected : ∀ decl : FunctionDecl,
      (Attribute.validate decl.attributes).isAccepted = false → ∀ e, ¬ decl.Breaks r e :=
    fun _ h _ => FunctionDecl.not_breaks_of_rejected h
  rcases ofDecls_cases ho decls r with
    ⟨u, hu, hsettles⟩ | ⟨before, decl, rest, e, rfl, hbreaks, hbefore, herror⟩
  · refine ⟨iff_of_false ?_ ?_, ?_, fun _ => ⟨u, hu, hsettles⟩, hrejected⟩
    · simp [hu]
    · rintro ⟨decl, hdecl, e, hbreaks⟩
      exact hsettles.not_breaks decl hdecl e hbreaks
    · intro e herror
      simp [hu] at herror
  · have hmem : decl ∈ before ++ decl :: rest := List.mem_append_right _ List.mem_cons_self
    refine ⟨iff_of_true ⟨e, herror⟩ ⟨decl, hmem, e, hbreaks⟩, ?_, ?_, hrejected⟩
    · intro e' herror'
      obtain rfl := Except.error.inj (herror.symm.trans herror')
      exact ⟨before, decl, rest, rfl, hbreaks, hbefore⟩
    · intro hnone
      exact absurd hbreaks (hnone decl hmem e)

theorem ofDecls_outcomes_unready :
    ∃ before decl rest,
      [{ FunctionDecl.share with attributes := [] }, .share] = before ++ decl :: rest ∧
        decl.Breaks .empty (.configuration .registryNotClosed) ∧
        ∀ d ∈ before, ∀ e, ¬ d.Breaks .empty e := by
  have herror : ofDecls [{ FunctionDecl.share with attributes := [] }, .share] {} .empty =
      .error (.configuration .registryNotClosed) := by
    rfl
  exact (ofDecls_outcomes _ _ rfl).2.1 _ herror

end CompiledUnit

end ContractGuard
