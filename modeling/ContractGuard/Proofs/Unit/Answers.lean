import ContractGuard.Proofs.Lowering.Total
import ContractGuard.Unit

/-!
# Every text is answered

A text that cannot be read is answered with one diagnostic, and any other with one result
for each of its declarations. There is a single exception: the sign of a decimal is taken
in a context of its own, and a decimal beyond the limit of that context ends the unit.
Such a decimal has at least a million digits before its point.
-/

namespace ContractGuard

open Grammar

variable {source : String} {o : Options} {decl : FunctionDecl} {decls : List FunctionDecl}

theorem Attribute.validate_cause {raw : List RawAttribute}
    (h : (validate raw).isAccepted = false) (function : String) :
    ∃ cause, (validate raw).cause? function = some cause := by
  simp only [validate, judge] at h ⊢
  split
  · exact ⟨_, rfl⟩
  · next hfind =>
    rw [hfind] at h
    dsimp only at h ⊢
    split_ifs at h ⊢
    · exact ⟨_, rfl⟩
    · exact ⟨_, rfl⟩
    · exact ⟨_, rfl⟩
    · simp [Verdict.accept, Verdict.isAccepted] at h

theorem FunctionDecl.compile_defined (h : decl.Typed) :
    ∃ f, decl.compile .default = .ok f ∧ f.name = decl.name := by
  have hblames := decl.blames_lower h
  cases haccepted : (Attribute.validate decl.attributes).isAccepted with
  | true =>
    simp only [compile, haccepted, if_true]
    cases hlower : decl.lower .default with
    | ok f => exact ⟨_, rfl, rfl⟩
    | error e =>
      obtain ⟨fault, rfl⟩ := hblames e hlower
      exact ⟨_, rfl, rfl⟩
  | false =>
    obtain ⟨cause, hcause⟩ := Attribute.validate_cause haccepted decl.name
    simp only [compile, haccepted, Bool.false_eq_true, if_false, Verdict.toFault, hcause]
    exact ⟨_, rfl, rfl⟩

theorem mapM_eq_ok {ε α β : Type} {f : α → Except ε β} {xs : List α} {ys : List β} :
    xs.mapM f = .ok ys ↔ List.Forall₂ (fun x y => f x = .ok y) xs ys := by
  induction xs generalizing ys with
  | nil => simp [pure, Except.pure, eq_comm]
  | cons x xs ih =>
    rw [List.mapM_cons, bind_eq_ok, List.forall₂_cons_left_iff]
    refine exists_congr fun y => ?_
    simp only [bind_eq_ok, ih, pure_eq_ok]
    grind

theorem forall₂_of_exists {α β : Type} {rel : α → β → Prop} {xs : List α}
    (h : ∀ x ∈ xs, ∃ y, rel x y) : ∃ ys, List.Forall₂ rel xs ys := by
  induction xs with
  | nil => exact ⟨[], .nil⟩
  | cons x xs ih =>
    obtain ⟨⟨y, hy⟩, hxs⟩ := List.forall_mem_cons.mp h
    obtain ⟨ys, hys⟩ := ih hxs
    exact ⟨y :: ys, .cons hy hys⟩

/-- The first numeral of the text that has no value is a decimal whose negative is too
large. -/
def Reading.Overflows (source : String) (file : Option String) : Prop :=
  ∃ r span, Reader.read file source.toList = .ok r ∧ r.fault = some ⟨.signal .overflow, span⟩

theorem Reading.overflows_of_program {ls : List Lexeme} {fs : List NumeralFault}
    (file : Option String) (h : Program Named ls decls (.signal .overflow :: fs))
    (hls : ∀ l ∈ ls, l.WellFormed) (hw : Lexeme.Written ls source.toList) :
    Overflows source file := by
  obtain ⟨r, hread, -, hfault⟩ := Reader.read_of_program file h hls hw
  cases hr : r.fault with
  | none => simp [hr] at hfault
  | some e =>
    obtain ⟨fault, span⟩ := e
    obtain rfl : fault = .signal .overflow := by simpa [hr] using hfault
    exact ⟨r, span, hread, hr⟩

namespace CompiledUnit

inductive Answers (u : CompiledUnit) : Reading → Prop
  | refused {d : Diagnostic} :
      d.code = some "ParseError" → u.functions = [] → u.diagnostics = [d] →
      Answers u (.refused d)
  | compiled {decls : List FunctionDecl} :
      u.diagnostics = [] →
      List.Forall₂ (fun decl f => decl.compile .default = .ok f ∧ f.name = decl.name) decls
        u.functions →
      Answers u (.declarations decls)

theorem ofDecls_ok {r : Registry} {fs : List FunctionResult} (ho : o.validate = .ok ())
    (h : List.Forall₂ (fun decl f => decl.compile r = .ok f) decls fs) :
    ofDecls decls o r = .ok { functions := fs } := by
  rw [ofDecls, ho, bind_eq_ok]
  exact ⟨(), rfl, by rw [mapM_eq_ok.mpr h]; rfl⟩

theorem ofDecls_answers (ho : o.validate = .ok ()) (h : ∀ decl ∈ decls, decl.Typed) :
    ∃ u, ofDecls decls o .default = .ok u ∧ u.Answers (.declarations decls) := by
  obtain ⟨functions, hall⟩ := forall₂_of_exists fun decl hdecl =>
    FunctionDecl.compile_defined (h decl hdecl)
  exact ⟨{ functions }, ofDecls_ok ho (hall.imp fun _ _ hf => hf.1), .compiled rfl hall⟩

theorem ofSource_eq (ho : o.validate = .ok ()) (source : String) :
    ofSource source o = (do
      match ← Reading.ofSource source o.file with
      | .refused d => return { diagnostics := [d] }
      | .declarations decls => ofDecls decls o .default) := by
  rw [ofSource, ho]
  rfl

theorem ofSource_of_declarations (ho : o.validate = .ok ())
    (h : Reading.ofSource source o.file = .ok (.declarations decls)) :
    ∃ u, ofSource source o = .ok u ∧ u.Answers (.declarations decls) := by
  obtain ⟨r, hread, hfault, rfl⟩ := Reading.ofSource_eq_declarations.mp h
  obtain ⟨u, hu, hanswers⟩ := ofDecls_answers ho (Reader.read_typed hread hfault)
  refine ⟨u, ?_, hanswers⟩
  rw [ofSource_eq ho, h]
  exact hu

theorem ofSource_cases (ho : o.validate = .ok ()) (source : String) :
    (∃ u reading, Reading.ofSource source o.file = .ok reading ∧ ofSource source o = .ok u ∧
      u.Answers reading) ∨
    Reading.Overflows source o.file ∧ ofSource source o = .error (.signal .overflow) := by
  rcases Reading.refuses_or source o.file with ⟨decls, hread⟩ | ⟨d, hread, hcode, -⟩ |
    ⟨r, s, span, hread, hfault, hsource⟩
  · obtain ⟨u, hu, hanswers⟩ := ofSource_of_declarations ho hread
    exact .inl ⟨u, _, hread, hu, hanswers⟩
  · rw [ofSource_eq ho, hread]
    exact .inl ⟨{ diagnostics := [d] }, _, rfl, rfl, .refused hcode rfl rfl⟩
  · obtain ⟨rfl, -⟩ := Reader.read_signal hread hfault
    rw [ofSource_eq ho, hsource]
    exact .inr ⟨⟨r, span, hread, hfault⟩, rfl⟩

theorem ofSource_of_overflows (ho : o.validate = .ok ())
    (h : Reading.Overflows source o.file) : ofSource source o = .error (.signal .overflow) := by
  obtain ⟨r, span, hread, hfault⟩ := h
  have hsource : Reading.ofSource source o.file = .error (.signal .overflow) := by
    simp only [Reading.ofSource, hread, hfault, NumeralFault.message?]
  rw [ofSource_eq ho, hsource]
  rfl

/-- Under options with a number of workers every text gets its answer, unless the first of
its numerals without a value is a decimal of a million digits or more after a sign: then
there is no unit. -/
theorem answers_unless_overflow (source : String) (o : Options) (ho : o.validate = .ok ()) :
    ((∃ u reading, Reading.ofSource source o.file = .ok reading ∧ ofSource source o = .ok u ∧
        u.Answers reading) ↔ ¬ Reading.Overflows source o.file) ∧
    (Reading.Overflows source o.file →
      ofSource source o = .error (.signal .overflow) ∧
      ∃ whole fraction, (Lexeme.decimal whole fraction).Occurs source.toList ∧
        Context.plain.limit ≤ Numeral.written whole fraction ∧ 1000000 ≤ whole.length) := by
  refine ⟨⟨?_, ?_⟩, ?_⟩
  · rintro ⟨u, reading, -, hu, -⟩ hover
    rw [ofSource_of_overflows ho hover] at hu
    cases hu
  · intro hnot
    exact (ofSource_cases ho source).resolve_right fun h => hnot h.1
  · intro hover
    obtain ⟨r, span, hread, hfault⟩ := hover
    obtain ⟨-, whole, fraction, hoccurs, hlimit⟩ := Reader.read_signal hread hfault
    exact ⟨ofSource_of_overflows ho ⟨r, span, hread, hfault⟩, whole, fraction, hoccurs, hlimit,
      Numeral.length_of_limit_le hoccurs.1 hlimit⟩

theorem answers_short_decimal :
    ∃ u reading, Reading.ofSource "@ public fn f ( ) { - 1.5 ; } " none = .ok reading ∧
      ofSource "@ public fn f ( ) { - 1.5 ; } " {} = .ok u ∧ u.Answers reading := by
  have hanswers := answers_unless_overflow "@ public fn f ( ) { - 1.5 ; } " {} rfl
  refine hanswers.1.mpr fun hover => ?_
  obtain ⟨-, whole, fraction, ⟨-, hinfix⟩, -, hlong⟩ := hanswers.2 hover
  have htext : "@ public fn f ( ) { - 1.5 ; } ".toList.length = 30 := by decide
  have hle := hinfix.length_le
  simp only [Lexeme.chars, List.length_append] at hle
  omega

end CompiledUnit

def Lexeme.negation (l : Lexeme) : List Lexeme :=
  [.symbol .at, .word "public".toList, .word ['f', 'n'], .word ['f'], .symbol .lparen,
    .symbol .rparen, .symbol .lbrace, .symbol .minus, l, .symbol .semicolon, .symbol .rbrace]

theorem Lexeme.negation_wellFormed {l : Lexeme} (h : l.WellFormed) :
    ∀ l' ∈ l.negation, l'.WellFormed := by
  simp only [negation, List.forall_mem_cons]
  exact ⟨trivial, by decide, by decide, by decide, trivial, trivial, trivial, trivial, h, trivial,
    trivial, by simp⟩

theorem Lexeme.negation_written (l : Lexeme) :
    Written l.negation
      ("@ public fn f ( ) \x7b - " ++ String.ofList l.chars ++ " ; \x7d ").toList := by
  simpa [negation, chars, Symbol.chars] using written_apart l.negation

theorem Lexeme.negation_derives {l : Lexeme} {c : Except NumeralFault Constant}
    (h : l.negated? = some c) : ∃ decls, Program Named l.negation decls (constantFaults c) := by
  have hvalue : Expression .unary [.symbol .minus, l] _ _ := .negative h
  have hstmt := Statements.empty.snoc (.eval (.ofProduct (.ofUnary hvalue)) rfl)
  have hpublic : Attributes [.symbol .at, .word "public".toList] _ := .snoc .none
  exact ⟨_, Program.empty.snoc (.mk hpublic (Named.apart ['f']) .none .none hstmt)⟩

namespace CompiledUnit

theorem overflow_of_zeros {n : ℕ} (hn : 1000000 ≤ n) :
    ofSource ("@ public fn f ( ) \x7b - " ++
      String.ofList ('1' :: List.replicate n '0' ++ ['.', '0']) ++ " ; \x7d ") {} =
        .error (.signal .overflow) := by
  have hneg : (Lexeme.decimal ('1' :: List.replicate n '0') ['0']).negated? =
      some (.error (.signal .overflow)) :=
    congrArg some (Numeral.negativeDecimal_eq_error.mpr ⟨rfl, Numeral.limit_le_power hn⟩)
  obtain ⟨decls, hprogram⟩ := Lexeme.negation_derives hneg
  have hover := Reading.overflows_of_program none hprogram
    (Lexeme.negation_wellFormed (Numeral.power_wellFormed n)) (Lexeme.negation_written _)
  exact ofSource_of_overflows rfl hover

theorem overflow_million :
    ofSource ("@ public fn f ( ) \x7b - " ++
      String.ofList ('1' :: List.replicate 1000000 '0' ++ ['.', '0']) ++ " ; \x7d ") {} =
        .error (.signal .overflow) :=
  overflow_of_zeros (Nat.le_refl 1000000)

end CompiledUnit

end ContractGuard
