import ContractGuard.Proofs.Lowering.Derivation
import ContractGuard.Proofs.Lowering.Refusal
import ContractGuard.Proofs.Syntax.Names
import Mathlib.Data.Set.Function

/-!
# Lowering a declaration under other names

Local names serve to look up values and nothing more. As long as different names stay
different, a renamed declaration lowers to the same code with other names of parameters, or
fails with the same fault at the same place. What a procedure refuses on its own account knows
nothing of local names, so a fault that it raises stays as it is.
-/

namespace ContractGuard

variable {α β γ δ : Type} {r : Registry} {f : String → String} {g : α → β} {g' : γ → δ}
  {S : Set String} {locals locals' : Locals} {n : String} {span : Span}

def Node.rename (f : String → String) : Node → Node
  | loadParam dest name ty => loadParam dest (f name) ty
  | node => node

theorem Node.isReturn_rename (node : Node) : (node.rename f).isReturn = node.isReturn := by
  cases node <;> rfl

def CompiledFunction.rename (f : String → String) (code : CompiledFunction) : CompiledFunction :=
  { code with nodes := code.nodes.map (Node.rename f) }

def Buffer.rename (f : String → String) (b : Buffer) : Buffer :=
  { b with nodes := b.nodes.map (Node.rename f) }

def Cause.rename (f : String → String) : Cause → Cause
  | unknownName name => unknownName (f name)
  | duplicateName name => duplicateName (f name)
  | cause => cause

def Fault.rename (f : String → String) : Fault → Fault
  | source e => source ⟨e.cause.rename f, e.span⟩
  | e => e

/-- A procedure of the registry ends with the fault by itself. -/
def Registry.Raises (r : Registry) (e : Fault) : Prop :=
  ∃ target found entry v span, r.resolve target found = .ok entry ∧
    entry.procedure.run v entry.target span = .error e

/-- The second outcome is the first under other names. -/
inductive Renames (r : Registry) (f : String → String) (g : α → β) :
    Except Fault α → Except Fault β → Prop
  | ok (a : α) : Renames r f g (.ok a) (.ok (g a))
  | fault (e : Fault) : Renames r f g (.error e) (.error (e.rename f))
  | raised {e : Fault} : r.Raises e → Renames r f g (.error e) (.error e)

theorem Renames.bind {x : Except Fault α} {y : Except Fault β} {h : α → Except Fault γ}
    {h' : β → Except Fault δ} (hx : Renames r f g x y) (hg : ∀ a, Renames r f g' (h a) (h' (g a))) :
    Renames r f g' (x >>= h) (y >>= h') := by
  cases hx with
  | ok a => exact hg a
  | fault e => exact .fault e
  | raised hr => exact .raised hr

/-- The cause is about no local name. -/
def Cause.Nameless (cause : Cause) : Prop := ∀ f, cause.rename f = cause

theorem Cause.OfConversion.nameless {target : String} {cause : Cause}
    (h : cause.OfConversion target) : cause.Nameless := by
  cases h <;> exact fun _ => rfl

theorem Cause.OfOperation.nameless {op : ArithOp} {cause : Cause} (h : cause.OfOperation op) :
    cause.Nameless := by
  cases h <;> exact fun _ => rfl

theorem BlamesAt.rename_eq {e : Fault}
    (h : BlamesAt span Cause.Nameless (.error e : Except Fault α)) : e.rename f = e := by
  cases e with
  | source fault => simp only [Fault.rename, (h fault rfl).2 f]
  | _ => rfl

theorem BlamesAt.renames {x : Except Fault α} (h : BlamesAt span Cause.Nameless x) :
    Renames r f id x x := by
  cases x with
  | ok a => exact .ok a
  | error e =>
    have hfault : Renames r f (id : α → α) (.error e) _ := .fault e
    rwa [h.rename_eq] at hfault

theorem Registry.BuiltIn.rename_eq {e : Fault} (hr : r.BuiltIn) (h : r.Raises e) :
    e.rename f = e := by
  obtain ⟨entries, rfl, hbuiltin⟩ := hr
  obtain ⟨target, found, entry, v, span, hresolve, hraised⟩ := h
  have hentry : entry ∈ entries := by
    simp only [resolve] at hresolve
    split at hresolve
    · next hfind =>
      obtain rfl := Except.ok.inj hresolve
      exact List.mem_of_find?_eq_some hfind
    · cases hresolve
  have hblames : BlamesAt span Cause.Nameless (entry.procedure.run v entry.target span) := by
    refine (Procedure.blamesAt_builtin (hbuiltin entry hentry)).mono fun cause hcause => ?_
    cases cause with
    | invalidConversion => exact fun _ => rfl
    | _ => exact hcause.elim
  rw [hraised] at hblames
  exact hblames.rename_eq

theorem Renames.eq_of_builtIn {x : Except Fault α} {y : Except Fault β} (h : Renames r f g x y)
    (hr : r.BuiltIn) : y = (x.map g).mapError (Fault.rename f) := by
  cases h with
  | ok a => rfl
  | fault e => rfl
  | raised he => exact congrArg Except.error (hr.rename_eq he).symm

namespace Emit

def Renames (r : Registry) (f : String → String) (g : α → β) (x : Emit α) (y : Emit β) : Prop :=
  ∀ b, ContractGuard.Renames r f g (x.run b).1 (y.run (b.rename f)).1 ∧
    (y.run (b.rename f)).2 = (x.run b).2.rename f

theorem renames_pure (a : α) : Renames r f g (pure a) (pure (g a)) := fun _ => ⟨.ok a, rfl⟩

theorem renames_ofExcept {x : Except Fault α} {y : Except Fault β}
    (h : ContractGuard.Renames r f g x y) : Renames r f g (ofExcept x) (ofExcept y) :=
  fun _ => ⟨h, rfl⟩

theorem renames_misuse (m : Misuse) :
    Renames r f g (throw (.misuse m) : Emit α) (throw (.misuse m)) :=
  fun _ => ⟨.fault (.misuse m), rfl⟩

theorem renames_newValue : Renames r f id newValue newValue := fun b => ⟨.ok b.fresh, rfl⟩

theorem renames_node (node : Node) :
    Renames r f id (Emit.node node) (Emit.node (node.rename f)) := by
  intro b
  refine ⟨.ok (), ?_⟩
  change ({ b.rename f with nodes := b.nodes.map _ ++ [node.rename f] } : Buffer) =
    { b with nodes := (b.nodes ++ [node]).map _ }
  rw [List.map_append, List.map_singleton]
  rfl

theorem renames_get : Renames r f (Buffer.rename f) (get : Emit Buffer) get := fun b => ⟨.ok b, rfl⟩

theorem Renames.bind {x : Emit α} {y : Emit β} {h : α → Emit γ} {h' : β → Emit δ}
    (hx : Renames r f g x y)
    (hg : ∀ a b b', x.Yields b a b' → Renames r f g' (h a) (h' (g a))) :
    Renames r f g' (x >>= h) (y >>= h') := by
  intro b
  obtain ⟨hout, hbuffer⟩ := hx b
  change ContractGuard.Renames r f g' ((ExceptT.bindCont h (x.run b).1).run (x.run b).2).1
      ((ExceptT.bindCont h' (y.run (b.rename f)).1).run (y.run (b.rename f)).2).1 ∧
    ((ExceptT.bindCont h' (y.run (b.rename f)).1).run (y.run (b.rename f)).2).2 =
      ((ExceptT.bindCont h (x.run b).1).run (x.run b).2).2.rename f
  rcases hxb : x.run b with ⟨out, b₁⟩
  rcases hyb : y.run (b.rename f) with ⟨out', b₁'⟩
  rw [hxb, hyb] at hout hbuffer
  obtain rfl : b₁' = b₁.rename f := hbuffer
  cases hout with
  | ok a => exact hg a b b₁ hxb b₁
  | fault e => exact ⟨.fault e, rfl⟩
  | raised hr => exact ⟨.raised hr, rfl⟩

theorem renames_foldlM {step : α → γ → Emit α} {step' : β → δ → Emit β} {m : γ → δ}
    {good : α → Prop} {xs : List γ}
    (hstep : ∀ x ∈ xs, ∀ s, good s → Renames r f g (step s x) (step' (g s) (m x)) ∧
      ∀ b s' b', (step s x).Yields b s' b' → good s') {s : α} (hs : good s) :
    Renames r f g (xs.foldlM step s) ((xs.map m).foldlM step' (g s)) := by
  induction xs generalizing s with
  | nil => exact renames_pure s
  | cons x xs ih =>
    obtain ⟨hx, hgood⟩ := hstep x List.mem_cons_self s hs
    rw [List.map_cons, List.foldlM_cons, List.foldlM_cons]
    exact hx.bind fun s' b b' hy =>
      ih (fun z hz => hstep z (List.mem_cons_of_mem x hz)) (hgood b s' b' hy)

theorem renames_materialize (v : TypedValue) :
    Renames r f id (materialize v) (materialize v) := by
  simp only [materialize]
  cases v.operand with
  | some id => exact renames_pure id
  | none =>
    exact renames_newValue.bind fun dest _ _ _ =>
      (renames_node (.const dest v.ty v.value)).bind fun _ _ _ _ => renames_pure dest

theorem renames_clamp (src : ValueId) (ty : ScalarType) :
    Renames r f id (clamp src ty) (clamp src ty) := by
  have hbounds : BlamesAt {} Cause.Nameless ty.bounds :=
    blamesAt_of_relocates fun _ => ty.relocates_bounds
  refine (renames_ofExcept hbounds.renames).bind fun range _ _ _ => ?_
  refine renames_newValue.bind fun dest _ _ _ => ?_
  exact (renames_node (.clampTo dest src ty range)).bind fun _ _ _ _ => renames_pure dest

end Emit

namespace ConversionEntry

variable {entry : ConversionEntry} {target : String} {found : Span}

theorem renames_plan (h : r.resolve target found = .ok entry) (v : TypedValue) (span : Span) :
    Renames r f id (entry.plan v span) (entry.plan v span) := by
  have hout : ∀ p name, (Cause.literalOutOfRange p name).Nameless := fun _ _ _ => rfl
  have hsource : BlamesAt span Cause.Nameless (entry.requireSource v span) := by
    simp only [requireSource]
    split
    · exact blamesAt_requireInBounds _ _ (hout _ _)
    · exact blamesAt_ok ()
  have hresult : ∀ converted,
      BlamesAt span Cause.Nameless (entry.requireResult v converted span) := by
    intro converted
    simp only [requireResult]
    split
    · exact blamesAt_requireLegal _ _ (hout _ _)
    · exact blamesAt_ok ()
  have hrun : Renames r f id (entry.procedure.run v entry.target span)
      (entry.procedure.run v entry.target span) := by
    cases hraised : entry.procedure.run v entry.target span with
    | ok converted => exact .ok converted
    | error e => exact .raised ⟨target, found, entry, v, span, h, hraised⟩
  refine (v.blamesAt_requireLegal (hout _ _)).renames.bind fun _ => hsource.renames.bind fun _ => ?_
  exact hrun.bind fun converted => (hresult converted).renames.bind fun _ => .ok converted

theorem renames_emit (entry : ConversionEntry) (v : TypedValue) (converted : Converted) :
    Emit.Renames r f id (entry.emit v converted) (entry.emit v converted) := by
  have hclamp : ∀ src,
      let clamped : Emit TypedValue := do
        let dest ← Emit.clamp src entry.target
        if v.isLiteral then return ⟨entry.target, converted.literal, true, some dest⟩
        else return .runtime entry.target dest
      Emit.Renames r f id clamped clamped := by
    intro src
    refine (Emit.renames_clamp src entry.target).bind fun dest _ _ _ => ?_
    split <;> exact Emit.renames_pure _
  refine (Emit.renames_materialize v).bind fun held _ _ _ => ?_
  by_cases hty : v.ty = entry.target
  · simp only [if_pos hty]
    exact (Emit.renames_pure held).bind fun src _ _ _ => hclamp src
  · simp only [if_neg hty]
    refine Emit.renames_newValue.bind fun dest _ _ _ => ?_
    refine (Emit.renames_node (.convert dest held v.ty entry.target converted.mode)).bind
      fun _ _ _ _ => ?_
    exact (Emit.renames_pure dest).bind fun src _ _ _ => hclamp src

end ConversionEntry

theorem Registry.renames_convert (r : Registry) (v : TypedValue) (target : String) (span : Span) :
    Emit.Renames r f id (r.convert v target span) (r.convert v target span) := by
  have hresolve : BlamesAt span Cause.Nameless (r.resolve target span) :=
    (blamesAt_resolve r).mono fun _ h => h.nameless
  refine (Emit.renames_ofExcept hresolve.renames).bind fun entry _ _ hy => ?_
  obtain ⟨hentry, -⟩ := Emit.ofExcept_yields.mp hy
  exact (Emit.renames_ofExcept (entry.renames_plan hentry v span)).bind
    fun converted _ _ _ => entry.renames_emit v converted

theorem ArithOp.renames_emit (op : ArithOp) (v w : TypedValue) (folded : Option Payload) :
    Emit.Renames r f id (op.emit v w folded) (op.emit v w folded) := by
  have hraw : ∀ lhs rhs,
      let operation : Emit TypedValue := do
        let raw ← Emit.newValue
        Emit.node (.binary raw op lhs rhs v.ty)
        let dest ← Emit.clamp raw v.ty
        return result v.ty folded dest
      Emit.Renames r f id operation operation := by
    intro lhs rhs
    refine Emit.renames_newValue.bind fun raw _ _ _ => ?_
    refine (Emit.renames_node (.binary raw op lhs rhs v.ty)).bind fun _ _ _ _ => ?_
    exact (Emit.renames_clamp raw v.ty).bind fun _ _ _ _ => Emit.renames_pure _
  rw [emit_eq]
  refine (Emit.renames_materialize v).bind fun lhs _ _ _ => ?_
  refine (Emit.renames_materialize w).bind fun rhs _ _ _ => ?_
  dsimp only [id]
  split
  · exact (Emit.renames_node (.zeroCheck rhs v.ty .divisionByZero)).bind fun _ _ _ _ => hraw lhs rhs
  · exact hraw lhs rhs

theorem renames_guard (op : OperatorName) (v w : TypedValue) (span : Span) :
    Emit.Renames r f id (guard op v w span) (guard op v w span) := by
  have hop : BlamesAt span Cause.Nameless op.resolve := by
    cases op with
    | known op => exact blamesAt_ok op
    | unknown shown => exact blamesAt_of_relocates fun _ => relocates_misuse _
  refine (Emit.renames_ofExcept hop.renames).bind fun op _ _ _ => ?_
  have hplan : BlamesAt span Cause.Nameless (op.plan v w span) :=
    (op.blamesAt_plan v w).mono fun _ h => h.nameless
  exact (Emit.renames_ofExcept hplan.renames).bind fun folded _ _ _ => op.renames_emit v w folded

namespace Locals

def rename (f : String → String) (locals : Locals) : Locals :=
  locals.map fun entry => (f entry.1, entry.2)

def Within (S : Set String) (locals : Locals) : Prop := ∀ entry ∈ locals, entry.1 ∈ S

theorem within_nil : Within S [] := by
  intro entry h
  cases h

theorem Within.cons (h : locals.Within S) (hn : n ∈ S) (v : TypedValue) :
    Within S ((n, v) :: locals) := by
  intro entry hentry
  rcases List.mem_cons.mp hentry with rfl | hentry
  · exact hn
  · exact h entry hentry

theorem lookup_rename (hf : Set.InjOn f S) (h : locals.Within S) (hn : n ∈ S) :
    (locals.rename f).lookup (f n) = locals.lookup n := by
  induction locals with
  | nil => rfl
  | cons entry locals ih =>
    obtain ⟨k, v⟩ := entry
    have hk : k ∈ S := h (k, v) List.mem_cons_self
    have hrest := ih fun entry hentry => h entry (List.mem_cons_of_mem _ hentry)
    change List.lookup (f n) ((f k, v) :: rename f locals) = _
    rw [List.lookup_cons, List.lookup_cons, hrest]
    by_cases hnk : n = k
    · subst hnk
      simp
    · have hne : f n ≠ f k := fun he => hnk (hf hn hk he)
      simp [beq_eq_false_iff_ne.mpr hnk, beq_eq_false_iff_ne.mpr hne]

end Locals

namespace Lowering

variable {result : Option ScalarType} {b b' : Buffer}

theorem renames_expr (hf : Set.InjOn f S) (hl : locals.Within S) {e : Expr}
    (he : ∀ n ∈ e.names, n ∈ S) :
    Emit.Renames r f id (expr r locals e) (expr r (locals.rename f) (e.rename f)) := by
  induction e with
  | literal value ty span =>
    cases ty with
    | none => exact Emit.renames_misuse _
    | some ty => exact Emit.renames_pure _
  | name ident span =>
    have hlookup := Locals.lookup_rename hf hl (he ident List.mem_cons_self)
    simp only [Expr.rename, expr]
    rw [hlookup]
    cases locals.lookup ident with
    | some v => exact Emit.renames_pure v
    | none => exact Emit.renames_ofExcept (.fault (.source ⟨.unknownName ident, span⟩))
  | binary op left right span ihl ihr =>
    obtain ⟨hleft, hright⟩ := List.forall_mem_append.mp he
    refine (ihl hleft).bind fun v _ _ _ => (ihr hright).bind fun w _ _ _ => ?_
    exact renames_guard op v w span
  | conversion target arg span ih =>
    exact (ih he).bind fun v _ _ _ => r.renames_convert v target span
  | unsupported span => exact Emit.renames_misuse _

theorem renames_requireFresh (hf : Set.InjOn f S) (hl : locals.Within S) (hn : n ∈ S)
    (span : Span) :
    Renames r f id (requireFresh locals n span) (requireFresh (locals.rename f) (f n) span) := by
  simp only [requireFresh]
  rw [Locals.lookup_rename hf hl hn]
  cases locals.lookup n with
  | none => exact .ok ()
  | some v => exact .fault (.source ⟨.duplicateName n, span⟩)

theorem blamesAt_requireNoResult (result : Option ScalarType) (span : Span) :
    BlamesAt span Cause.Nameless (requireNoResult result span) := by
  cases result with
  | none => exact blamesAt_ok ()
  | some ty =>
    have hblame : BlamesAt span Cause.Nameless
        (Fault.blame span (.typeMismatch "void" ty.name (some "return")) : Except Fault Unit) :=
      blamesAt_blame fun _ => rfl
    exact hblame

theorem blamesAt_requireReturnable (result : Option ScalarType) (v : TypedValue) (span : Span) :
    BlamesAt span Cause.Nameless (requireReturnable result v span) := by
  have hresult : BlamesAt span Cause.Nameless (requireResult result v span) := by
    cases result with
    | none => exact blamesAt_ok ()
    | some ty => exact blamesAt_require fun _ _ => rfl
  refine hresult.bind fun _ => ?_
  split
  · exact v.blamesAt_requireLegal fun _ => rfl
  · exact blamesAt_ok ()

theorem renames_stmt (hf : Set.InjOn f S) (hl : locals.Within S) {s : Stmt}
    (hs : ∀ n ∈ s.names, n ∈ S) :
    Emit.Renames r f (Locals.rename f) (stmt r result locals s)
      (stmt r result (locals.rename f) (s.rename f)) := by
  cases s with
  | bind name value span =>
    obtain ⟨hname, hvalue⟩ := List.forall_mem_cons.mp hs
    refine (Emit.renames_ofExcept (renames_requireFresh hf hl hname span)).bind fun _ _ _ _ => ?_
    exact (renames_expr hf hl hvalue).bind fun v _ _ _ => Emit.renames_pure ((name, v) :: locals)
  | eval value span =>
    exact (renames_expr hf hl hs).bind fun _ _ _ _ => Emit.renames_pure locals
  | ret value span =>
    cases value with
    | none =>
      have hnone := (blamesAt_requireNoResult result span).renames (r := r) (f := f)
      refine (Emit.renames_ofExcept hnone).bind fun _ _ _ _ => ?_
      exact (Emit.renames_node (.ret none)).bind fun _ _ _ _ => Emit.renames_pure locals
    | some value =>
      refine (renames_expr hf hl hs).bind fun v _ _ _ => ?_
      have hreturn := (blamesAt_requireReturnable result v span).renames (r := r) (f := f)
      refine (Emit.renames_ofExcept hreturn).bind fun _ _ _ _ => ?_
      refine (Emit.renames_materialize v).bind fun id _ _ _ => ?_
      exact (Emit.renames_node (.ret (some id))).bind fun _ _ _ _ => Emit.renames_pure locals
  | unsupported span => exact Emit.renames_misuse _

theorem StmtLowers.within {s : Stmt} (h : StmtLowers r result locals s b locals' b')
    (hl : locals.Within S) (hs : ∀ n ∈ s.names, n ∈ S) : locals'.Within S := by
  cases h with
  | bind _ _ => exact hl.cons (hs _ List.mem_cons_self) _
  | eval _ | bareReturn _ | valueReturn _ _ _ => exact hl

theorem blamesAt_typeNamed (name : String) (span : Span) :
    BlamesAt span Cause.Nameless (typeNamed name span) := by
  simp only [typeNamed]
  split
  · exact blamesAt_ok _
  · exact blamesAt_blame fun _ => rfl

theorem renames_param (hf : Set.InjOn f S) (hl : locals.Within S) {p : Param} (hp : p.name ∈ S) :
    Emit.Renames r f (Locals.rename f) (param locals p) (param (locals.rename f) (p.rename f)) := by
  have hty := (blamesAt_typeNamed p.typeName p.span).renames (r := r) (f := f)
  refine (Emit.renames_ofExcept hty).bind fun ty _ _ _ => ?_
  refine (Emit.renames_ofExcept (renames_requireFresh hf hl hp p.span)).bind fun _ _ _ _ => ?_
  refine Emit.renames_newValue.bind fun dest _ _ _ => ?_
  exact (Emit.renames_node (.loadParam dest p.name ty)).bind fun _ _ _ _ =>
    Emit.renames_pure ((p.name, .runtime ty dest) :: locals)

theorem ParamsLower.within {params : List Param} (h : ParamsLower params locals b locals' b')
    (hl : locals.Within S) (hp : ∀ p ∈ params, p.name ∈ S) : locals'.Within S := by
  induction h with
  | nil => exact hl
  | cons _ _ _ ih =>
    obtain ⟨hname, hrest⟩ := List.forall_mem_cons.mp hp
    exact ih (hl.cons hname _) hrest

theorem endsInReturn_rename (b : Buffer) : endsInReturn (b.rename f) = endsInReturn b := by
  simp only [endsInReturn, Buffer.rename, List.getLast?_map]
  cases b.nodes.getLast? with
  | none => rfl
  | some node => exact node.isReturn_rename

theorem renames_close (result : Option ScalarType) (span : Span) :
    Emit.Renames r f id (close result span) (close result span) := by
  refine Emit.renames_get.bind fun b _ _ _ => ?_
  rw [endsInReturn_rename]
  split
  · have hnone := (blamesAt_requireNoResult result span).renames (r := r) (f := f)
    exact (Emit.renames_ofExcept hnone).bind fun _ _ _ _ => Emit.renames_node (.ret none)
  · exact Emit.renames_pure ()

theorem blamesAt_resultType (decl : FunctionDecl) :
    BlamesAt decl.span Cause.Nameless (resultType decl) := by
  simp only [resultType]
  split
  · exact blamesAt_ok none
  · exact (blamesAt_typeNamed _ _).bind fun _ => blamesAt_ok _

theorem renames_function {decl : FunctionDecl} (hf : Set.InjOn f { n | n ∈ decl.localNames }) :
    Emit.Renames r f id (function r decl) (function r (decl.rename f)) := by
  set S : Set String := { n | n ∈ decl.localNames } with hS
  have hparams : ∀ p ∈ decl.params, p.name ∈ S := fun p hp =>
    List.mem_append_left _ (List.mem_map_of_mem hp)
  have hbody : ∀ s ∈ decl.body, ∀ n ∈ s.names, n ∈ S := fun s hs n hn =>
    List.mem_append_right _ (List.mem_flatMap_of_mem hs hn)
  have hparam : ∀ p ∈ decl.params, ∀ locals : Locals, locals.Within S →
      Emit.Renames r f (Locals.rename f) (param locals p)
          (param (locals.rename f) (p.rename f)) ∧
        ∀ b locals' b', (param locals p).Yields b locals' b' → locals'.Within S := by
    intro p hp locals hl
    refine ⟨renames_param hf hl (hparams p hp), fun b locals' b' hy => ?_⟩
    obtain ⟨ty, -, -, rfl, -⟩ := param_yields.mp hy
    exact hl.cons (hparams p hp) _
  have hstmt : ∀ result, ∀ s ∈ decl.body, ∀ locals : Locals, locals.Within S →
      Emit.Renames r f (Locals.rename f) (stmt r result locals s)
          (stmt r result (locals.rename f) (s.rename f)) ∧
        ∀ b locals' b', (stmt r result locals s).Yields b locals' b' → locals'.Within S :=
    fun _ s hs locals hl => ⟨renames_stmt hf hl (hbody s hs),
      fun _ _ _ hy => (stmt_yields.mp hy).within hl (hbody s hs)⟩
  have hresult := (blamesAt_resultType decl).renames (r := r) (f := f)
  refine (Emit.renames_ofExcept hresult).bind fun result _ _ _ => ?_
  refine (Emit.renames_foldlM hparam Locals.within_nil).bind fun locals b b' hy => ?_
  have hl : locals.Within S := (params_yields.mp hy).within Locals.within_nil hparams
  exact (Emit.renames_foldlM (hstmt result) hl).bind fun _ _ _ _ => renames_close result decl.span

end Lowering

namespace FunctionDecl

theorem renames_lower {decl : FunctionDecl} (hf : Set.InjOn f { n | n ∈ decl.localNames }) :
    Renames r f (CompiledFunction.rename f) (decl.lower r) ((decl.rename f).lower r) := by
  obtain ⟨hout, hbuffer⟩ := Lowering.renames_function (r := r) hf { name := decl.name }
  change Renames r f id _ ((Lowering.function r (decl.rename f)).run { name := decl.name }).1
    at hout
  change ((Lowering.function r (decl.rename f)).run { name := decl.name }).2 = _ at hbuffer
  simp only [lower]
  rw [show (decl.rename f).name = decl.name from rfl]
  generalize (Lowering.function r decl).run { name := decl.name } = run at hout hbuffer ⊢
  generalize (Lowering.function r (decl.rename f)).run { name := decl.name } = run'
    at hout hbuffer ⊢
  obtain ⟨out, b⟩ := run
  obtain ⟨out', b'⟩ := run'
  obtain rfl : b' = b.rename f := hbuffer
  cases hout with
  | ok _ => exact .ok b.finish
  | fault e => exact .fault e
  | raised hr => exact .raised hr

/-- Names that stay different may become any others, those of types and attributes included. With
the procedures that come with the registry the outcome is the same under other names; any other
procedure may fail in its own words, and then it does so again. -/
theorem lower_rename (r : Registry) (decl : FunctionDecl) (f : String → String)
    (hf : Set.InjOn f { n | n ∈ decl.localNames }) :
    Renames r f (CompiledFunction.rename f) (decl.lower r) ((decl.rename f).lower r) ∧
      (r.BuiltIn → (decl.rename f).lower r =
        ((decl.lower r).map (CompiledFunction.rename f)).mapError (Fault.rename f)) :=
  ⟨renames_lower hf, (renames_lower hf).eq_of_builtIn⟩

def disguise : String → String
  | "amount" => "uint256"
  | "rate" => "public"
  | "hundred" => "uint8"
  | name => name

theorem lower_rename_share :
    Set.InjOn disguise { n | n ∈ share.localNames } ∧ Registry.default.BuiltIn ∧
      ∃ code, share.lower .default = .ok code ∧
        (share.rename disguise).lower .default = .ok (code.rename disguise) := by
  have hinj : Set.InjOn disguise { n | n ∈ share.localNames } := by
    have hpairs : ∀ n ∈ share.localNames, ∀ m ∈ share.localNames,
        disguise n = disguise m → n = m := by decide +kernel
    exact fun n hn m hm => hpairs n hn m hm
  obtain ⟨code, hcode⟩ := share_lowers
  have hlower := (FunctionDecl.lower_rename .default share disguise hinj).2 Registry.builtIn_default
  rw [hcode] at hlower
  exact ⟨hinj, Registry.builtIn_default, code, hcode, hlower⟩

end FunctionDecl

end ContractGuard
