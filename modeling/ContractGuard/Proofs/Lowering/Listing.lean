import ContractGuard.Proofs.Lowering.Blame
import ContractGuard.Proofs.Syntax.Plain

/-!
# Listings of lowered code

Every value that a plain declaration hands around has a type of the table, and it either sits
in an id or is a literal in the form of its type. Under this invariant each step of the lowering
appends nodes whose lines tell them apart, so the listing of what was lowered determines it.
-/

namespace ContractGuard

open ScalarType Text

variable {result : Option ScalarType} {locals locals' : Locals} {v w : TypedValue}
  {b b' b₀ b₁ b₂ : Buffer} {block : List Node} {id : ValueId}

structure TypedValue.Listable (v : TypedValue) : Prop where
  typed : v.ty ∈ table
  operand : ∀ id ∈ v.operand, Unbroken id
  bare : v.operand = none → v.value.InForm v.ty.kind

theorem TypedValue.listable_held {ty : ScalarType} (hty : ty ∈ table) (value : Payload)
    (isLiteral : Bool) (n : ℕ) :
    (⟨ty, value, isLiteral, some (.ofIndex n)⟩ : TypedValue).Listable := by
  refine ⟨hty, ?_, by simp⟩
  simpa using ValueId.unbroken_ofIndex n

theorem Buffer.unbroken_fresh (b : Buffer) : Unbroken b.fresh :=
  ValueId.unbroken_ofIndex b.nextValue

def Buffer.Listable (b : Buffer) : Prop := b.finish.Listable

theorem Buffer.Listable.push (h : b.Listable) (hblock : ∀ node ∈ block, node.Listable) :
    (b.push block).Listable :=
  ⟨h.name, List.forall_mem_append.mpr ⟨h.nodes, hblock⟩⟩

theorem Buffer.Listable.push_node {node : Node} (h : b.Listable) (hnode : node.Listable) :
    (b.push [node]).Listable :=
  h.push (List.forall_mem_singleton.mpr hnode)

def Locals.Listable (locals : Locals) : Prop := ∀ entry ∈ locals, TypedValue.Listable entry.2

theorem Locals.Listable.cons (h : locals.Listable) (hv : v.Listable) (name : String) :
    Locals.Listable ((name, v) :: locals) :=
  List.forall_mem_cons.mpr ⟨hv, h⟩

theorem Emit.Holds.listable (h : Emit.Holds v b id b') (hv : v.Listable) (hb : b.Listable) :
    Unbroken id ∧ b'.Listable := by
  cases h with
  | held ho => exact ⟨hv.operand id ho, hb⟩
  | constant ho =>
    have hnode : (Node.const b.fresh v.ty v.value).Listable :=
      .const b.unbroken_fresh hv.typed (hv.bare ho)
    exact ⟨b.unbroken_fresh, hb.push_node hnode⟩

theorem ConversionEntry.listable_result {entry : ConversionEntry} (ht : entry.target ∈ table)
    (v : TypedValue) (converted : Converted) (n : ℕ) :
    (entry.result v converted (.ofIndex n)).Listable := by
  simp only [ConversionEntry.result]
  split
  · exact TypedValue.listable_held ht _ _ n
  · exact TypedValue.listable_held ht _ _ n

theorem ConversionEntry.Emits.listable {entry : ConversionEntry} {converted : Converted}
    (h : entry.Emits v converted b w b') (ht : entry.target ∈ table) (hv : v.Listable)
    (hb : b.Listable) : w.Listable ∧ b'.Listable := by
  cases h with
  | @same id b₁ range hh _ hr =>
    obtain ⟨hid, hb₁⟩ := hh.listable hv hb
    have hclamp : (Node.clampTo b₁.fresh id entry.target range).Listable :=
      .clamp b₁.unbroken_fresh hid ht hr
    exact ⟨entry.listable_result ht v converted _, hb₁.push_node hclamp⟩
  | @changed id b₁ range hh _ hr =>
    obtain ⟨hid, hb₁⟩ := hh.listable hv hb
    have hconvert : (Node.convert b₁.fresh id v.ty entry.target converted.mode).Listable :=
      .convert _ b₁.unbroken_fresh hid hv.typed ht
    have hclamp :
        (Node.clampTo (.ofIndex (b₁.nextValue + 1)) b₁.fresh entry.target range).Listable :=
      .clamp (ValueId.unbroken_ofIndex _) b₁.unbroken_fresh ht hr
    refine ⟨entry.listable_result ht v converted _, hb₁.push ?_⟩
    exact List.forall_mem_cons.mpr ⟨hconvert, List.forall_mem_singleton.mpr hclamp⟩

theorem ArithOp.Emits.listable {op : ArithOp} {left right : TypedValue} {folded : Option Payload}
    (h : op.Emits left right folded b w b') (hl : left.Listable) (hr : right.Listable)
    (hb : b.Listable) : w.Listable ∧ b'.Listable := by
  obtain @⟨lhs, rhs, b₁, b₂, range, hlhs, hrhs, hrange⟩ := h
  obtain ⟨hleft, hb₁⟩ := hlhs.listable hl hb
  obtain ⟨hright, hb₂⟩ := hrhs.listable hr hb₁
  have hcheck : ∀ node ∈ op.divisorCheck rhs left.ty, node.Listable := by
    simp only [ArithOp.divisorCheck]
    split
    · exact List.forall_mem_singleton.mpr (.zeroCheck hright hl.typed)
    · simp
  have hbinary : (Node.binary b₂.fresh op lhs rhs left.ty).Listable :=
    .binary op b₂.unbroken_fresh hleft hright hl.typed
  have hclamp : (Node.clampTo (.ofIndex (b₂.nextValue + 1)) b₂.fresh left.ty range).Listable :=
    .clamp (ValueId.unbroken_ofIndex _) b₂.unbroken_fresh hl.typed hrange
  refine ⟨?_, hb₂.push (List.forall_mem_append.mpr ⟨hcheck, ?_⟩)⟩
  · cases folded with
    | none => exact TypedValue.listable_held hl.typed _ _ _
    | some p => exact TypedValue.listable_held hl.typed _ _ _
  · exact List.forall_mem_cons.mpr ⟨hbinary, List.forall_mem_singleton.mpr hclamp⟩

namespace Lowering

theorem ExprLowers.listable {e : Expr} (h : ExprLowers .default locals e b v b') (he : e.Plain)
    (hl : locals.Listable) (hb : b.Listable) : v.Listable ∧ b'.Listable := by
  induction h with
  | literal =>
    obtain ⟨known, hknown, hty, hform⟩ := he
    obtain rfl := Option.some.inj hty
    exact ⟨⟨hknown, by simp [TypedValue.literal], fun _ => hform⟩, hb⟩
  | name hlookup => exact ⟨hl _ (mem_of_lookup hlookup), hb⟩
  | conversion _ hconvert ih =>
    obtain ⟨hv, hb₁⟩ := ih he hb
    obtain ⟨entry, converted, hentry, -, hemits⟩ := Registry.convert_yields.mp hconvert
    exact hemits.listable (Registry.target_mem hentry) hv hb₁
  | binary _ _ hguard ihl ihr =>
    obtain ⟨hv, hb₁⟩ := ihl he.1 hb
    obtain ⟨hw, hb₂⟩ := ihr he.2 hb₁
    obtain ⟨op, folded, -, -, hemits⟩ := guard_yields.mp hguard
    exact hemits.listable hv hw hb₂

theorem StmtLowers.listable {s : Stmt} (h : StmtLowers .default result locals s b locals' b')
    (hs : s.Plain) (hl : locals.Listable) (hb : b.Listable) : locals'.Listable ∧ b'.Listable := by
  cases h with
  | bind _ hvalue =>
    obtain ⟨hv, hb'⟩ := hvalue.listable hs hl hb
    exact ⟨hl.cons hv _, hb'⟩
  | eval hvalue => exact ⟨hl, (hvalue.listable hs hl hb).2⟩
  | bareReturn _ => exact ⟨hl, hb.push_node .bareReturn⟩
  | valueReturn hvalue _ hholds =>
    obtain ⟨hv, hb₁⟩ := hvalue.listable (hs _ rfl) hl hb
    obtain ⟨hid, hb₂⟩ := hholds.listable hv hb₁
    exact ⟨hl, hb₂.push_node (.valueReturn hid)⟩

theorem BodyLowers.listable {body : List Stmt}
    (h : BodyLowers .default result body locals b locals' b') (hbody : ∀ s ∈ body, s.Plain)
    (hl : locals.Listable) (hb : b.Listable) : b'.Listable := by
  induction h with
  | nil => exact hb
  | cons hs _ ih =>
    obtain ⟨hplain, hrest⟩ := List.forall_mem_cons.mp hbody
    obtain ⟨hl₁, hb₁⟩ := hs.listable hplain hl hb
    exact ih hrest hl₁ hb₁

theorem ParamsLower.listable {params : List Param} (h : ParamsLower params locals b locals' b')
    (hparams : ∀ p ∈ params, Unbroken p.name) (hl : locals.Listable) (hb : b.Listable) :
    locals'.Listable ∧ b'.Listable := by
  induction h with
  | nil => exact ⟨hl, hb⟩
  | @cons p rest ty locals locals' b b' hty _ _ ih =>
    obtain ⟨hname, hrest⟩ := List.forall_mem_cons.mp hparams
    have hmem : ty ∈ table := (find?_eq_some hty).1
    have hload : (Node.loadParam b.fresh p.name ty).Listable :=
      .loadParam b.unbroken_fresh hname hmem
    exact ih hrest (hl.cons (TypedValue.listable_held hmem _ _ _) p.name)
      (hb.push_node hload)

theorem Closes.listable (h : Closes result b b') (hb : b.Listable) : b'.Listable := by
  cases h with
  | ended _ => exact hb
  | «open» _ _ => exact hb.push_node .bareReturn

end Lowering

namespace FunctionDecl

variable {d : FunctionDecl} {f : CompiledFunction}

theorem Plain.listable (hd : d.Plain) (h : d.lower .default = .ok f) : f.Listable := by
  obtain ⟨result, locals, locals', b₀, b₁, b₂, hf, rfl⟩ := Lowering.lower_eq_ok.mp h
  have hempty : ({ name := d.name } : Buffer).Listable := ⟨hd.name, by simp [Buffer.finish]⟩
  have hnil : Locals.Listable [] := by simp [Locals.Listable]
  obtain ⟨hl, hb₀⟩ := hf.params.listable hd.params hnil hempty
  have hb₁ := hf.body.listable hd.body hl hb₀
  exact hf.closes.listable hb₁

end FunctionDecl

/-- The listing of a function that was read and lowered determines its name and its nodes, with
the sign, the digits and the exponent of every decimal in them. -/
theorem listing_determines {s s' : String} {file file' : Option String}
    {decls decls' : List FunctionDecl} {d d' : FunctionDecl} {f f' : CompiledFunction}
    (hs : Reading.ofSource s file = .ok (.declarations decls)) (hd : d ∈ decls)
    (hf : d.lower .default = .ok f)
    (hs' : Reading.ofSource s' file' = .ok (.declarations decls')) (hd' : d' ∈ decls')
    (hf' : d'.lower .default = .ok f') (h : f.listing = f'.listing) : f = f' := by
  have hplain := Reading.declarations_plain hs d hd
  have hplain' := Reading.declarations_plain hs' d' hd'
  exact (hplain.listable hf).eq_of_listing (hplain'.listable hf') h

theorem listing_determines_constant :
    ∃ d d' f f', Reading.ofSource "fn f() \x7b return 1.50; \x7d" none = .ok (.declarations [d]) ∧
      d.lower .default = .ok f ∧
      Reading.ofSource "fn f() \x7b\n  let x = 1.50; // kept\n  return x;\n\x7d" none =
        .ok (.declarations [d']) ∧
      d'.lower .default = .ok f' ∧ f.listing = f'.listing ∧ f = f' := by
  let constant (span : Span) : Expr :=
    .literal (.decimal (.finite ⟨false, 150, -2⟩)) (some .fixed) span
  let d : FunctionDecl := ⟨"f", [], [], none,
    [.ret (some (constant ⟨none, some 1, some 17, some 1, some 21⟩))
      ⟨none, some 1, some 10, some 1, some 22⟩],
    ⟨none, some 1, some 1, some 1, some 24⟩⟩
  let d' : FunctionDecl := ⟨"f", [], [], none,
    [.bind "x" (constant ⟨none, some 2, some 11, some 2, some 15⟩)
        ⟨none, some 2, some 3, some 2, some 16⟩,
      .ret (some (.name "x" ⟨none, some 3, some 10, some 3, some 11⟩))
        ⟨none, some 3, some 3, some 3, some 12⟩],
    ⟨none, some 1, some 1, some 4, some 2⟩⟩
  have hs : Reading.ofSource "fn f() \x7b return 1.50; \x7d" none = .ok (.declarations [d]) := by
    decide +kernel
  have hs' : Reading.ofSource "fn f() \x7b\n  let x = 1.50; // kept\n  return x;\n\x7d" none =
      .ok (.declarations [d']) := by
    decide +kernel
  let f : CompiledFunction :=
    ⟨"f", [.const "%0" .fixed (.decimal (.finite ⟨false, 150, -2⟩)), .ret (some "%0")]⟩
  have hf : d.lower .default = .ok f := by decide +kernel
  have hf' : d'.lower .default = .ok f := by decide +kernel
  have hmem : d ∈ [d] := List.mem_singleton_self d
  have hmem' : d' ∈ [d'] := List.mem_singleton_self d'
  exact ⟨d, d', f, f, hs, hf, hs', hf', rfl, listing_determines hs hmem hf hs' hmem' hf' rfl⟩

end ContractGuard
