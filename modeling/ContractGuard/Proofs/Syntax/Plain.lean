import ContractGuard.Proofs.Code.Listing
import ContractGuard.Proofs.Syntax.Typed

/-!
# Names and literals of what is read

A name of a declaration that is read is a word of its text, so nothing in it breaks a line. A
literal has a type of the table and a payload in the form of that type: a fixed-point literal
is always kept as a decimal, even if it is whole.
-/

namespace ContractGuard

open Grammar Text

namespace Expr

/-- Literals are all typed and kept in the form of their types. -/
def Plain : Expr → Prop
  | literal value ty _ => ∃ known ∈ ScalarType.table, ty = some known ∧ value.InForm known.kind
  | binary _ left right _ => left.Plain ∧ right.Plain
  | conversion _ arg _ => arg.Plain
  | name .. | unsupported _ => True

theorem plain_unspanned (e : Expr) : e.unspanned.Plain ↔ e.Plain := by
  induction e with
  | literal | name | unsupported => rfl
  | binary op left right span ihl ihr => exact and_congr ihl ihr
  | conversion target arg span ih => exact ih

end Expr

namespace Stmt

def Plain : Stmt → Prop
  | bind _ value _ | eval value _ => value.Plain
  | ret value _ => ∀ e ∈ value, e.Plain
  | unsupported _ => True

theorem plain_unspanned (s : Stmt) : s.unspanned.Plain ↔ s.Plain := by
  cases s with
  | bind name value span | eval value span => exact value.plain_unspanned
  | ret value span => simp [unspanned, Plain, Expr.plain_unspanned]
  | unsupported span => rfl

end Stmt

structure FunctionDecl.Plain (d : FunctionDecl) : Prop where
  name : Unbroken d.name
  params : ∀ p ∈ d.params, Unbroken p.name
  body : ∀ s ∈ d.body, s.Plain

theorem FunctionDecl.plain_unspanned {d : FunctionDecl} (h : d.unspanned.Plain) : d.Plain := by
  obtain ⟨hname, hparams, hbody⟩ := h
  refine ⟨hname, fun p hp => hparams p.unspanned (List.mem_map_of_mem hp), fun s hs => ?_⟩
  exact s.plain_unspanned.mp (hbody _ (List.mem_map_of_mem hs))

variable {ls ns : List Lexeme} {fs : List NumeralFault} {l : Lexeme} {c : Constant}
  {cs : List Char}

theorem Lexeme.unbroken_word (h : cs.all isWordChar = true) : Unbroken (String.ofList cs) := by
  rw [Unbroken, String.toList_ofList]
  exact ⟨fun hc => absurd (List.all_eq_true.mp h _ hc) (by decide),
    fun hc => absurd (List.all_eq_true.mp h _ hc) (by decide)⟩

theorem Constant.Formed.inForm (h : c.Formed) : c.value.InForm c.ty.kind := by
  have htext := h.hasText
  cases h with
  | uint _ => exact .uint htext
  | int _ => exact .int htext
  | decimal d => exact .decimal d
  | @bytes bs _ => exact .bytes bs

namespace Grammar

theorem constantTree_plain {c : Except NumeralFault Constant}
    (h : l.constant? = some c ∨ l.negated? = some c) (hfaults : constantFaults c = []) :
    (constantTree c).Plain := by
  cases c with
  | ok c =>
    have hformed := Lexeme.constant_formed h
    exact ⟨c.ty, hformed.ty_mem, rfl, hformed.inForm⟩
  | error fault => cases hfaults

theorem Expression.plain {rank : Rank} {e : Expr} (h : Expression rank ls e fs) (hfs : fs = []) :
    e.Plain := by
  induction h with
  | sum _ _ _ ihl ihr | product _ _ _ ihl ihr =>
    obtain ⟨hl, hr⟩ := List.append_eq_nil_iff.mp hfs
    exact ⟨ihl hl, ihr hr⟩
  | ofProduct _ ih | ofUnary _ ih | ofAtom _ ih | conversion _ ih | group _ ih => exact ih hfs
  | negative h => exact constantTree_plain (.inr h) hfs
  | constant h => exact constantTree_plain (.inl h) hfs
  | name cs => trivial

theorem Statement.plain {s : Stmt} (h : Statement ls s fs) (hfs : fs = []) : s.Plain := by
  cases h with
  | bind he => exact he.plain hfs
  | ret => simp [Stmt.Plain]
  | retValue he => simpa [Stmt.Plain] using he.plain hfs
  | eval he _ => exact he.plain hfs

theorem Statements.plain {stmts : List Stmt} (h : Statements ls stmts fs) (hfs : fs = []) :
    ∀ s ∈ stmts, s.Plain := by
  induction h with
  | empty => simp
  | snoc _ hs ih =>
    obtain ⟨hl, hr⟩ := List.append_eq_nil_iff.mp hfs
    simpa [or_imp, forall_and] using ⟨ih hl, hs.plain hr⟩

theorem Named.unbroken {name : String} (h : Named ns name) (hns : ∀ l ∈ ns, l.WellFormed) :
    Unbroken name := by
  cases h with
  | apart name => exact Lexeme.unbroken_word (hns (.word name) (by simp)).2
  | @joined c cs _ =>
    have hword := (hns (.word ('f' :: 'n' :: c :: cs)) (by simp)).2
    simp only [List.all_cons, Bool.and_eq_true] at hword
    exact Lexeme.unbroken_word (by simpa using hword.2.2)

theorem SomeParams.unbroken {params : List Param} (h : SomeParams ls params)
    (hls : ∀ l ∈ ls, l.WellFormed) : ∀ p ∈ params, Unbroken p.name := by
  induction h with
  | one name ty =>
    simpa using Lexeme.unbroken_word (hls (.word name) (by simp)).2
  | @snoc ls params name ty _ ih =>
    obtain ⟨hleft, hright⟩ := List.forall_mem_append.mp hls
    have hname : Unbroken (String.ofList name) :=
      Lexeme.unbroken_word (hright (.word name) (by simp)).2
    simpa [or_imp, forall_and] using ⟨ih hleft, hname⟩

theorem Params.unbroken {params : List Param} (h : Params ls params)
    (hls : ∀ l ∈ ls, l.WellFormed) : ∀ p ∈ params, Unbroken p.name := by
  cases h with
  | none => simp
  | some h => exact h.unbroken hls

theorem Declaration.plain {d : FunctionDecl} (h : Declaration Named ls d fs)
    (hls : ∀ l ∈ ls, l.WellFormed) (hfs : fs = []) : d.Plain := by
  cases h with
  | @mk as ns ps rs bs attributes name params result stmts fs _ hnamed hparams _ hstmts =>
    have hns : ∀ l ∈ ns, l.WellFormed := fun l hl => hls l (by simp [hl])
    have hps : ∀ l ∈ ps, l.WellFormed := fun l hl => hls l (by simp [hl])
    exact ⟨hnamed.unbroken hns, hparams.unbroken hps, hstmts.plain hfs⟩

theorem Program.plain {decls : List FunctionDecl} (h : Program Named ls decls fs)
    (hls : ∀ l ∈ ls, l.WellFormed) (hfs : fs = []) : ∀ d ∈ decls, d.Plain := by
  induction h with
  | empty => simp
  | snoc _ hdecl ih =>
    obtain ⟨hl, hr⟩ := List.append_eq_nil_iff.mp hfs
    obtain ⟨hleft, hright⟩ := List.forall_mem_append.mp hls
    simpa [or_imp, forall_and] using ⟨ih hleft hl, hdecl.plain hright hr⟩

end Grammar

theorem Reader.read_plain {file : Option String} {r : Reader} (h : read file cs = .ok r)
    (hfault : r.fault = none) : ∀ d ∈ r.functions, d.Plain := by
  obtain ⟨ls, fs, hprogram, hfs, hls⟩ := read_derives h
  obtain rfl : fs = [] := by simpa [hfault] using hfs.symm
  intro d hd
  exact FunctionDecl.plain_unspanned
    (hprogram.plain (fun l hl => (hls l hl).1) rfl _ (List.mem_map_of_mem hd))

theorem Reading.declarations_plain {source : String} {file : Option String}
    {decls : List FunctionDecl} (h : ofSource source file = .ok (.declarations decls)) :
    ∀ d ∈ decls, d.Plain := by
  obtain ⟨r, hread, hfault, rfl⟩ := ofSource_eq_declarations.mp h
  exact Reader.read_plain hread hfault

end ContractGuard
