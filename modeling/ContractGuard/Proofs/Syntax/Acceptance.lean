import ContractGuard.Proofs.Syntax.Derivations
import ContractGuard.Proofs.Syntax.Layout

/-!
# What is accepted

A text is accepted exactly when its lexemes derive declarations and every numeral among
them has a value; the declarations are then those of the derivation, and any other text is
refused with one diagnostic. This fails only where a declaration begins with a word of which
`fn` is the first part, since the reader cuts that word in two.
-/

namespace ContractGuard

open Grammar

variable {ls ms : List Lexeme} {fs gs : List NumeralFault} {l : Lexeme}
  {c : Except NumeralFault Constant} {fault : NumeralFault}

namespace Numeral

variable {digits : List Char}

theorem magnitude?_eq_error (h : magnitude? digits = .error fault) :
    ¬ (Lexeme.integer digits).Valued ∧ ∀ s, fault ≠ .signal s := by
  simp only [magnitude?] at h
  split at h
  · next hlt =>
    obtain rfl := Except.error.inj h
    exact ⟨fun hle => absurd hle (Nat.not_le_of_lt hlt), by simp⟩
  · cases h

theorem magnitude?_eq_ok {n : Nat} (h : magnitude? digits = .ok n) :
    (Lexeme.integer digits).Valued := by
  simp only [magnitude?] at h
  split at h
  · cases h
  · next hle => exact Nat.le_of_not_lt hle

theorem length_bytePairs (digits : List Char) : (bytePairs digits).length = digits.length / 2 := by
  fun_induction bytePairs digits with
  | case1 high low rest ih =>
    simp only [List.length_cons, ih]
    omega
  | case2 digits h =>
    obtain _ | ⟨c, _ | ⟨d, digits⟩⟩ := digits
    · rfl
    · simp
    · exact absurd rfl (h c d digits)

theorem hex_eq_error (h : hex digits = .error fault) :
    ¬ (Lexeme.hex digits).Valued ∧ ∀ s, fault ≠ .signal s := by
  simp only [hex, length_bytePairs] at h
  split at h
  · next hodd =>
    obtain rfl := Except.error.inj h
    exact ⟨fun hvalued => by simp [hvalued.1] at hodd, by simp⟩
  · split at h
    · cases h
    · next hwidth =>
      obtain rfl := Except.error.inj h
      exact ⟨fun hvalued => hwidth (List.contains_iff_mem.mpr hvalued.2), by simp⟩

theorem hex_eq_ok {constant : Constant} (h : hex digits = .ok constant) :
    (Lexeme.hex digits).Valued := by
  simp only [hex, length_bytePairs] at h
  split at h
  · cases h
  · next hodd =>
    split at h
    · next hwidth => exact ⟨by omega, List.contains_iff_mem.mp hwidth⟩
    · cases h

end Numeral

namespace Lexeme

def Faulty (l : Lexeme) (fault : NumeralFault) : Prop :=
  l.constant? = some (.error fault) ∨ l.negated? = some (.error fault)

theorem valued_of_ok {constant : Constant}
    (h : l.constant? = some (.ok constant) ∨ l.negated? = some (.ok constant)) : l.Valued := by
  cases l with
  | integer digits =>
    have hmagnitude : ∃ n, Numeral.magnitude? digits = .ok n := by
      cases hm : Numeral.magnitude? digits with
      | ok n => exact ⟨n, rfl⟩
      | error fault =>
        simp [constant?, negated?, Numeral.integer, Numeral.negativeInteger, hm, bind,
          Except.bind] at h
    obtain ⟨n, hn⟩ := hmagnitude
    exact Numeral.magnitude?_eq_ok hn
  | hex digits => exact Numeral.hex_eq_ok (by simpa [constant?, negated?] using h)
  | _ => trivial

theorem Faulty.cases (h : l.Faulty fault) :
    (¬ l.Valued ∧ ∀ s, fault ≠ .signal s) ∨
      ∃ whole fraction s, l = .decimal whole fraction ∧ fault = .signal s ∧
        Numeral.negativeDecimal whole fraction = .error (.signal s) := by
  cases l with
  | integer digits =>
    have hmagnitude : Numeral.magnitude? digits = .error fault := by
      simp only [Faulty, constant?, negated?, Numeral.integer, Numeral.negativeInteger] at h
      cases hm : Numeral.magnitude? digits with
      | ok n => simp [hm, bind, Except.bind, pure, Except.pure] at h
      | error fault' => simpa [hm, bind, Except.bind] using h
    exact .inl (Numeral.magnitude?_eq_error hmagnitude)
  | hex digits =>
    have hhex : Numeral.hex digits = .error fault := by
      simpa [Faulty, constant?, negated?] using h
    exact .inl (Numeral.hex_eq_error hhex)
  | decimal whole fraction =>
    have hneg : Numeral.negativeDecimal whole fraction = .error fault := by
      simpa [Faulty, constant?, negated?, Numeral.decimal] using h
    have hsignal : ∃ s, fault = .signal s := by
      simp only [Numeral.negativeDecimal] at hneg
      split at hneg
      · cases hneg
      · next s hs => exact ⟨s, (Except.error.inj hneg).symm⟩
    obtain ⟨s, rfl⟩ := hsignal
    exact .inr ⟨whole, fraction, s, rfl, rfl, hneg⟩
  | word cs => simp [Faulty, constant?, negated?] at h
  | symbol s => simp [Faulty, constant?, negated?] at h

end Lexeme

namespace Grammar

/-- Every numeral without a value is among the faults, and nothing else is. -/
structure Judges (ls : List Lexeme) (fs : List NumeralFault) : Prop where
  valued : fs = [] → ∀ l ∈ ls, l.Valued
  faulty : ∀ fault ∈ fs, ∃ l ∈ ls, l.Faulty fault

namespace Judges

theorem bare (h : ∀ l ∈ ls, l.Valued) : Judges ls [] := ⟨fun _ => h, by simp⟩

theorem append (h : Judges ls fs) (h' : Judges ms gs) : Judges (ls ++ ms) (fs ++ gs) := by
  constructor
  · intro hnil l hl
    obtain ⟨rfl, rfl⟩ := List.append_eq_nil_iff.mp hnil
    rcases List.mem_append.mp hl with hl | hl
    · exact h.valued rfl l hl
    · exact h'.valued rfl l hl
  · intro fault hfault
    rcases List.mem_append.mp hfault with hfault | hfault
    · obtain ⟨l, hl, hf⟩ := h.faulty fault hfault
      exact ⟨l, List.mem_append_left ms hl, hf⟩
    · obtain ⟨l, hl, hf⟩ := h'.faulty fault hfault
      exact ⟨l, List.mem_append_right ls hl, hf⟩

theorem cons (hl : l.Valued) (h : Judges ls fs) : Judges (l :: ls) fs :=
  append (bare (List.forall_mem_singleton.mpr hl)) h

theorem snoc (h : Judges ls fs) (hl : l.Valued) : Judges (ls ++ [l]) fs := by
  simpa using h.append (bare (List.forall_mem_singleton.mpr hl))

theorem constant (h : l.constant? = some c ∨ l.negated? = some c) :
    Judges [l] (constantFaults c) := by
  cases c with
  | ok value => exact bare (List.forall_mem_singleton.mpr (Lexeme.valued_of_ok h))
  | error fault =>
    refine ⟨by simp [constantFaults], ?_⟩
    intro fault' hfault
    obtain rfl := List.mem_singleton.mp hfault
    exact ⟨l, List.mem_singleton_self l, h⟩

end Judges

theorem Expression.judges {rank : Rank} {e : Expr} (h : Expression rank ls e fs) :
    Judges ls fs := by
  induction h with
  | sum _ _ _ ihl ihr => exact ihl.append (.cons trivial ihr)
  | product _ _ _ ihl ihr => exact ihl.append (.cons trivial ihr)
  | ofProduct _ ih | ofUnary _ ih | ofAtom _ ih => exact ih
  | negative h => exact .cons trivial (.constant (.inr h))
  | constant h => exact .constant (.inl h)
  | conversion _ ih => exact .snoc (.cons trivial (.cons trivial ih)) trivial
  | name cs => exact .bare (List.forall_mem_singleton.mpr trivial)
  | group _ ih => exact .snoc (.cons trivial ih) trivial

theorem Statement.judges {stmt : Stmt} (h : Statement ls stmt fs) : Judges ls fs := by
  cases h with
  | bind he => exact .snoc (.cons trivial (.cons trivial (.cons trivial he.judges))) trivial
  | ret => exact .cons trivial (.cons trivial (.bare (by simp)))
  | retValue he => exact .snoc (.cons trivial he.judges) trivial
  | eval he _ => exact he.judges.snoc trivial

theorem Statements.judges {stmts : List Stmt} (h : Statements ls stmts fs) : Judges ls fs := by
  induction h with
  | empty => exact .bare (by simp)
  | snoc _ hstmt ih => exact ih.append hstmt.judges

theorem Attributes.judges {attributes : List RawAttribute} (h : Attributes ls attributes) :
    Judges ls [] := by
  induction h with
  | none => exact .bare (by simp)
  | snoc _ ih => exact ih.append (.cons trivial (.cons trivial (.bare (by simp))))

theorem Named.judges {name : String} (h : Named ls name) : Judges ls [] := by
  cases h with
  | apart => exact .cons trivial (.cons trivial (.bare (by simp)))
  | joined => exact .cons trivial (.bare (by simp))

theorem SomeParams.judges {params : List Param} (h : SomeParams ls params) : Judges ls [] := by
  induction h with
  | one => exact .cons trivial (.cons trivial (.cons trivial (.bare (by simp))))
  | snoc _ ih =>
    exact ih.append
      (.cons trivial (.cons trivial (.cons trivial (.cons trivial (.bare (by simp))))))

theorem Params.judges {params : List Param} (h : Params ls params) : Judges ls [] := by
  cases h with
  | none => exact .bare (by simp)
  | some h => exact h.judges

theorem Result.judges {result : Option String} (h : Result ls result) : Judges ls [] := by
  cases h with
  | none => exact .bare (by simp)
  | some => exact .cons trivial (.cons trivial (.bare (by simp)))

theorem Declaration.judges {d : FunctionDecl} (h : Declaration Named ls d fs) : Judges ls fs := by
  obtain @⟨as, ns, ps, rs, bs, _, _, _, _, _, _, ha, hn, hp, hr, hstmts⟩ := h
  have hsignature : Judges (as ++ ns ++ .symbol .lparen :: ps) [] :=
    (ha.judges.append hn.judges).append (.cons trivial hp.judges)
  have hheading : Judges (as ++ ns ++ .symbol .lparen :: ps ++ .symbol .rparen :: rs) [] :=
    hsignature.append (.cons trivial hr.judges)
  have hbody : Judges (.symbol .lbrace :: bs) fs := .cons trivial hstmts.judges
  exact (hheading.append hbody).snoc trivial

theorem Program.judges {decls : List FunctionDecl} (h : Program Named ls decls fs) :
    Judges ls fs := by
  induction h with
  | empty => exact .bare (by simp)
  | snoc _ hdecl ih => exact ih.append hdecl.judges

theorem Program.mem_functionWord {decls : List FunctionDecl} (h : Program Apart ls decls fs) :
    ls = [] ∨ .word Lexeme.functionWord ∈ ls := by
  cases h with
  | empty => exact .inl rfl
  | snoc _ hdecl =>
    obtain ⟨_, ⟨name⟩, _, _, _⟩ := hdecl
    exact .inr (by simp [Lexeme.functionWord])

def Derives (ls : List Lexeme) (decls : List FunctionDecl) : Prop := ∃ fs, Program Apart ls decls fs

/-- The first numeral without a value is a decimal that has no negative. -/
def Overflows (ls : List Lexeme) : Prop :=
  ∃ decls s fs, Program Apart ls decls (.signal s :: fs)

/-- After these lexemes a declaration begins, or goes on after one of its attributes. -/
inductive AtTop : List Lexeme → Prop
  | first : AtTop []
  | body (ls : List Lexeme) : AtTop (ls ++ [.symbol .rbrace])
  | attribute (ls : List Lexeme) (name : List Char) : AtTop (ls ++ [.symbol .at, .word name])

/-- A declaration begins with a word of which `fn` is only the first part. -/
def BeginsJoined (ls : List Lexeme) : Prop :=
  ∃ before c cs after, ls = before ++ .word ('f' :: 'n' :: c :: cs) :: after ∧ AtTop before ∧
    Lexeme.isWordStart c = true

theorem BeginsJoined.append (h : BeginsJoined ls) (ms : List Lexeme) : BeginsJoined (ls ++ ms) := by
  obtain ⟨before, c, cs, after, rfl, hbefore, hc⟩ := h
  exact ⟨before, c, cs, after ++ ms, by simp, hbefore, hc⟩

theorem Program.atTop {named : List Lexeme → String → Prop} {decls : List FunctionDecl}
    (h : Program named ls decls fs) : AtTop ls := by
  cases h with
  | empty => exact .first
  | snoc _ hdecl =>
    obtain ⟨_, _, _, _, _⟩ := hdecl
    rw [← List.append_assoc]
    exact .body _

theorem Attributes.atTop {attributes : List RawAttribute} (h : Attributes ms attributes)
    (hls : AtTop ls) : AtTop (ls ++ ms) := by
  cases h with
  | none => simpa using hls
  | snoc _ =>
    rw [← List.append_assoc]
    exact .attribute _ _

theorem Declaration.apart {d : FunctionDecl} (h : Declaration Named ms d fs) (hls : AtTop ls)
    (hjoined : ¬ BeginsJoined (ls ++ ms)) : Declaration Apart ms d fs := by
  obtain @⟨as, _, ps, rs, bs, _, _, _, _, _, _, ha, hn, hp, hr, hstmts⟩ := h
  cases hn with
  | apart name => exact .mk ha (.mk name) hp hr hstmts
  | @joined c cs hc =>
    have hword : BeginsJoined (ls ++ as ++ [.word ('f' :: 'n' :: c :: cs)]) :=
      ⟨_, c, cs, [], rfl, ha.atTop hls, hc⟩
    have hwhole := hword.append
      (.symbol .lparen :: ps ++ .symbol .rparen :: rs ++ .symbol .lbrace :: bs ++ [.symbol .rbrace])
    exact absurd (by simpa using hwhole) hjoined

theorem Program.apart {decls : List FunctionDecl} (h : Program Named ls decls fs)
    (hjoined : ¬ BeginsJoined ls) : Program Apart ls decls fs := by
  induction h with
  | empty => exact .empty
  | snoc h hdecl ih =>
    exact .snoc (ih fun hls => hjoined (hls.append _)) (hdecl.apart h.atTop hjoined)

theorem Program.named {decls : List FunctionDecl} (h : Program Apart ls decls fs) :
    Program Named ls decls fs := by
  induction h with
  | empty => exact .empty
  | snoc _ hdecl ih =>
    obtain ⟨ha, ⟨name⟩, hp, hr, hstmts⟩ := hdecl
    exact ih.snoc (.mk ha (.apart name) hp hr hstmts)

theorem Program.signal_mem {decls : List FunctionDecl} {s : Signal}
    (h : Program Named ls decls fs) (hs : .signal s ∈ fs) :
    ∃ whole fraction, .decimal whole fraction ∈ ls ∧
      Numeral.negativeDecimal whole fraction = .error (.signal s) := by
  obtain ⟨l, hl, hfault⟩ := h.judges.faulty _ hs
  rcases hfault.cases with ⟨-, hsignal⟩ | ⟨whole, fraction, s', rfl, heq, hneg⟩
  · exact absurd rfl (hsignal s)
  · obtain rfl := NumeralFault.signal.inj heq
    exact ⟨whole, fraction, hl, hneg⟩

theorem Program.faults_eq_nil_iff {decls : List FunctionDecl} (h : Program Apart ls decls fs)
    (hs : ¬ Overflows ls) : fs = [] ↔ ∀ l ∈ ls, l.Valued := by
  have hjudges := h.named.judges
  refine ⟨hjudges.valued, fun hvalued => ?_⟩
  cases fs with
  | nil => rfl
  | cons fault fs =>
    obtain ⟨l, hl, hfault⟩ := hjudges.faulty fault List.mem_cons_self
    rcases hfault.cases with ⟨hl', -⟩ | ⟨_, _, s, -, rfl, -⟩
    · exact absurd (hvalued l hl) hl'
    · exact absurd ⟨decls, s, fs, h⟩ hs

theorem Program.unique {decls decls' : List FunctionDecl} (h : Program Named ls decls fs)
    (h' : Program Named ls decls' gs) : decls = decls' ∧ fs.head? = gs.head? := by
  let ts : List Token := ls.map fun l => ⟨l, .first, .first⟩
  have hts : ts.map Token.lexeme = ls := by
    rw [List.map_map]
    exact List.map_id ls
  have hleads : Leads (Reader.take none) {} ls (Declares {} decls fs) := h.leads rfl
  have hleads' : Leads (Reader.take none) {} ls (Declares {} decls' gs) := h'.leads rfl
  obtain ⟨r, hr, hfunctions, hfault, -⟩ := hleads ts hts
  obtain ⟨r', hr', hfunctions', hfault', -⟩ := hleads' ts hts
  obtain rfl := Except.ok.inj (hr.symm.trans hr')
  exact ⟨by simpa using hfunctions.symm.trans hfunctions',
    by simpa using hfault.symm.trans hfault'⟩

end Grammar

namespace Reader

open Lexeme

variable {file : Option String} {r : Reader} {cs : List Char} {decls : List FunctionDecl}

theorem read_eq_ok :
    read file cs = .ok r ↔ run file {} .first cs = .ok r ∧ ∃ decls, r.finish = .ok decls := by
  simp only [read]
  cases run file {} .first cs with
  | error fault => simp [bind, Except.bind]
  | ok r₁ => cases hr : r₁.finish <;> simp [hr, bind, Except.bind, pure, Except.pure] <;> grind

theorem read_of_spells (file : Option String) (h : Program Named ls decls fs)
    (hls : ∀ l ∈ ls, l.WellFormed) (hs : Spells ls cs) :
    ∃ r, read file cs = .ok r ∧ r.functions.map FunctionDecl.unspanned = decls ∧
      r.fault.map NumeralError.fault = fs.head? := by
  obtain ⟨ts, hts, hrun⟩ := run_iff_takes file hs hls .first
  have hleads : Leads (take file) {} ls (Declares {} decls fs) := h.leads rfl
  obtain ⟨r, hr, hfunctions, hfault, hm⟩ := hleads ts hts
  have hread : read file cs = .ok r :=
    read_eq_ok.mpr ⟨(hrun {} r).mpr hr, r.functions, if_pos hm⟩
  exact ⟨r, hread, by simpa using hfunctions, by simpa using hfault⟩

theorem read_of_program (file : Option String) (h : Program Named ls decls fs)
    (hls : ∀ l ∈ ls, l.WellFormed) (hw : Written ls cs) :
    ∃ r, read file cs = .ok r ∧ r.functions.map FunctionDecl.unspanned = decls ∧
      r.fault.map NumeralError.fault = fs.head? :=
  read_of_spells file h hls hw.spells

theorem program_of_read (h : read file cs = .ok r) (hls : ∀ l ∈ ls, l.WellFormed)
    (hw : Written ls cs) :
    ∃ fs, Program Named ls (r.functions.map FunctionDecl.unspanned) fs ∧
      r.fault.map NumeralError.fault = fs.head? := by
  obtain ⟨ts, rfl, hrun⟩ := run_iff_takes file hw.spells hls .first
  obtain ⟨hr, decls, hfinish⟩ := read_eq_ok.mp h
  have hreads := takes_reads reads_empty ((hrun {} r).mp hr)
  obtain ⟨rfl, hprogram⟩ := program_of_finish hreads hfinish
  exact hprogram

end Reader

namespace Reading

variable {file : Option String} {text : String} {rs : List FunctionDecl}

def Refuses (text : String) (file : Option String) : Prop :=
  ∃ d : Diagnostic, ofSource text file = .ok (.refused d) ∧ d.code = some "ParseError" ∧
    d.phase = some "parse"

theorem ofSource_eq_declarations :
    ofSource text file = .ok (.declarations rs) ↔
      ∃ r, Reader.read file text.toList = .ok r ∧ r.fault = none ∧ r.functions = rs := by
  simp only [ofSource, refuse]
  split
  · next hread => simp [hread]
  · next r hread =>
    split
    · next hfault => simp [hread, hfault]
    · next e hfault => split <;> simp [hread, hfault]

theorem refuses_or (text : String) (file : Option String) :
    (∃ rs, ofSource text file = .ok (.declarations rs)) ∨ Refuses text file ∨
      ∃ r s span, Reader.read file text.toList = .ok r ∧ r.fault = some ⟨.signal s, span⟩ ∧
        ofSource text file = .error (.signal s) := by
  simp only [Refuses, ofSource, refuse]
  split
  · exact .inr (.inl ⟨_, rfl, rfl, rfl⟩)
  · next r hread =>
    split
    · exact .inl ⟨_, rfl⟩
    · next e hfault =>
      obtain ⟨fault, span⟩ := e
      cases fault with
      | signal s => exact .inr (.inr ⟨r, s, span, hread, hfault, rfl⟩)
      | _ => exact .inr (.inl ⟨_, rfl, rfl, rfl⟩)

/-- Unless a declaration begins with a joined word, a text is accepted exactly when its lexemes
derive declarations and their numerals have values; it then has the declarations of every
derivation. -/
theorem accepts_exactly_grammar (file : Option String) (hls : ∀ l ∈ ls, l.WellFormed)
    (hw : Lexeme.Written ls text.toList) (hjoined : ¬ BeginsJoined ls) (hs : ¬ Overflows ls) :
    ((∃ rs, ofSource text file = .ok (.declarations rs)) ↔
      (∃ decls, Derives ls decls) ∧ ∀ l ∈ ls, l.Valued) ∧
    (∀ rs, ofSource text file = .ok (.declarations rs) →
      ∀ decls, Derives ls decls ↔ decls = rs.map FunctionDecl.unspanned) ∧
    ((∀ rs, ofSource text file ≠ .ok (.declarations rs)) → Refuses text file) := by
  have hsound : ∀ rs, ofSource text file = .ok (.declarations rs) →
      Program Named ls (rs.map FunctionDecl.unspanned) [] := by
    intro rs h
    obtain ⟨r, hread, hfault, rfl⟩ := ofSource_eq_declarations.mp h
    obtain ⟨fs, hprogram, hfs⟩ := Reader.program_of_read hread hls hw
    obtain rfl : fs = [] := by simpa [hfault] using hfs.symm
    exact hprogram
  refine ⟨⟨?_, ?_⟩, ?_, ?_⟩
  · rintro ⟨rs, h⟩
    exact ⟨⟨_, _, (hsound rs h).apart hjoined⟩, (hsound rs h).judges.valued rfl⟩
  · rintro ⟨⟨decls, fs, hprogram⟩, hvalued⟩
    obtain rfl := (hprogram.faults_eq_nil_iff hs).mpr hvalued
    obtain ⟨r, hread, -, hfault⟩ := Reader.read_of_program file hprogram.named hls hw
    exact ⟨_, ofSource_eq_declarations.mpr ⟨r, hread, by simpa using hfault, rfl⟩⟩
  · intro rs h decls
    refine ⟨fun ⟨fs, hprogram⟩ => (hprogram.named.unique (hsound rs h)).1, ?_⟩
    rintro rfl
    exact ⟨[], (hsound rs h).apart hjoined⟩
  · intro hnot
    rcases refuses_or text file with ⟨rs, h⟩ | h | ⟨r, s, span, hread, hfault, -⟩
    · exact absurd h (hnot rs)
    · exact h
    · obtain ⟨fs, hprogram, hfs⟩ := Reader.program_of_read hread hls hw
      obtain ⟨fault, fs, rfl⟩ : ∃ fault rest, fs = fault :: rest := by
        cases fs with
        | nil => simp [hfault] at hfs
        | cons fault rest => exact ⟨fault, rest, rfl⟩
      obtain rfl : .signal s = fault := by simpa [hfault] using hfs
      exact absurd ⟨_, s, fs, hprogram.apart hjoined⟩ hs

theorem accepts_exactly_grammar_signed :
    ∃ rs, ofSource "fn f ( ) { return - 2 ; } " none = .ok (.declarations rs) := by
  let ls : List Lexeme := [.word ['f', 'n'], .word ['f'], .symbol .lparen, .symbol .rparen,
    .symbol .lbrace, .word ['r', 'e', 't', 'u', 'r', 'n'], .symbol .minus, .integer ['2'],
    .symbol .semicolon, .symbol .rbrace]
  have hls : ∀ l ∈ ls, l.WellFormed := by decide
  have hw : Lexeme.Written ls "fn f ( ) { return - 2 ; } ".toList := Lexeme.written_apart ls
  have hjoined : ¬ BeginsJoined ls := by
    rintro ⟨before, c, cs, after, h, -⟩
    have hmem : .word ('f' :: 'n' :: c :: cs) ∈ ls := h ▸ by simp
    simp [ls] at hmem
  have hs : ¬ Overflows ls := by
    rintro ⟨decls, s, fs, h⟩
    obtain ⟨whole, fraction, hmem, -⟩ := h.named.signal_mem List.mem_cons_self
    simp [ls] at hmem
  have hvalue : Expression .unary [.symbol .minus, .integer ['2']] _ _ := .negative rfl
  have hstmt := Statements.empty.snoc (.retValue (.ofProduct (.ofUnary hvalue)))
  have hprogram := Program.empty.snoc (.mk .none (Apart.mk ['f']) .none .none hstmt)
  exact (accepts_exactly_grammar none hls hw hjoined hs).1.mpr ⟨⟨_, _, hprogram⟩, by decide⟩

/-- These lexemes derive nothing, and they are read as a function `ord`. -/
theorem accepts_joined_name :
    (∀ l ∈ [Lexeme.word "fnord".toList, .symbol .lparen, .symbol .rparen, .symbol .lbrace,
        .symbol .rbrace], l.WellFormed ∧ l.Valued) ∧
      Lexeme.Written [.word "fnord".toList, .symbol .lparen, .symbol .rparen, .symbol .lbrace,
        .symbol .rbrace] "fnord ( ) { } ".toList ∧
      (¬ ∃ decls, Derives [.word "fnord".toList, .symbol .lparen, .symbol .rparen,
        .symbol .lbrace, .symbol .rbrace] decls) ∧
      ∃ rs, ofSource "fnord ( ) { } " none = .ok (.declarations rs) ∧
        rs.map FunctionDecl.name = ["ord"] := by
  let ls : List Lexeme := [.word "fnord".toList, .symbol .lparen, .symbol .rparen, .symbol .lbrace,
    .symbol .rbrace]
  have hls : ∀ l ∈ ls, l.WellFormed ∧ l.Valued := by decide
  have hw : Lexeme.Written ls "fnord ( ) { } ".toList := Lexeme.written_apart ls
  have hname : Named [.word "fnord".toList] _ := @Named.joined 'o' ['r', 'd'] rfl
  have hprogram := Program.empty.snoc (.mk .none hname .none .none .empty)
  refine ⟨hls, hw, ?_, ?_⟩
  · rintro ⟨decls, fs, h⟩
    rcases h.mem_functionWord with h | h
    · cases h
    · exact absurd h (by decide)
  · obtain ⟨r, hread, hfunctions, hfault⟩ :=
      Reader.read_of_program none hprogram (fun l hl => (hls l hl).1) hw
    refine ⟨_, ofSource_eq_declarations.mpr ⟨r, hread, by simpa using hfault, rfl⟩, ?_⟩
    simpa [FunctionDecl.unspanned] using congrArg (List.map FunctionDecl.name) hfunctions

end Reading

end ContractGuard
