import ContractGuard.Proofs.Syntax.Expressions

/-!
# Reading declarations

A mode of the reader says how far into a declaration the lexemes read so far lead. Every
step keeps the finished declarations derived from what was read before them, and the
first fault among their numerals. Conversely the steps follow any derivation of a program.
-/

namespace ContractGuard

open Grammar

variable {file : Option String} {ls ms ks : List Lexeme} {fs gs hs : List NumeralFault}
  {r r' : Reader} {t : Token} {b : Body} {s : Signature}

/-- A token with blanks around it. Where a declaration begins, a longer word that starts
with `fn` is that word and the name of the function. -/
def Reader.take (file : Option String) (r : Reader) (t : Token) : Except SyntaxFault Reader :=
  match r.mode, t.lexeme with
  | .top _, .word ('f' :: 'n' :: c :: cs) =>
    if Lexeme.isWordStart c then do
      let middle := t.start.after Lexeme.functionWord
      let r ← r.step file ⟨.word Lexeme.functionWord, t.start, middle⟩
      r.step file ⟨.word (c :: cs), middle, t.stop⟩
    else t.unexpected
  | _, _ => r.step file t

theorem Reader.take_eq_step (h : ∀ heading, r.mode ≠ .top heading) :
    r.take file t = r.step file t := by
  simp only [take]
  split
  · next heading c cs hm hl => exact absurd hm (h heading)
  · rfl

theorem Mode.name_eq_ok {next : String → Mode} {m : Mode} :
    Mode.name t next = .ok m ↔ ∃ cs, t.lexeme = .word cs ∧ m = next (String.ofList cs) := by
  simp only [Mode.name]
  split <;> simp_all [Token.unexpected, eq_comm]

theorem Mode.symbol_eq_ok {sym : Symbol} {next m : Mode} :
    Mode.symbol sym t next = .ok m ↔ t.lexeme = .symbol sym ∧ m = next := by
  simp only [Mode.symbol]
  split <;> simp_all [Token.unexpected, eq_comm]

namespace Reader

theorem goto_eq_ok {m : Except SyntaxFault Mode} :
    r.goto m = .ok r' ↔ ∃ mode, m = .ok mode ∧ r' = { r with mode } := by
  cases m <;> simp [goto, bind, Except.bind, pure, Except.pure, eq_comm]

theorem goto_name_eq_ok {next : String → Mode} :
    r.goto (Mode.name t next) = .ok r' ↔
      ∃ cs, t.lexeme = .word cs ∧ r' = { r with mode := next (String.ofList cs) } := by
  simp only [goto_eq_ok, Mode.name_eq_ok]
  grind

theorem goto_symbol_eq_ok {sym : Symbol} {next : Mode} :
    r.goto (Mode.symbol sym t next) = .ok r' ↔
      t.lexeme = .symbol sym ∧ r' = { r with mode := next } := by
  simp only [goto_eq_ok, Mode.symbol_eq_ok]
  grind

theorem step_eq_ok :
    r.step file t = .ok r' ↔
      ∃ r₁, r.stepMode file t = .ok r₁ ∧ r' = { r₁ with last := t.start } := by
  cases h : r.stepMode file t <;>
    simp [step, h, bind, Except.bind, pure, Except.pure, eq_comm]

theorem stepExpr_eq_ok {start : Position} {purpose : Purpose} {p : Pending} :
    r.stepExpr file b start purpose p t = .ok r' ↔
      (∃ p', p.step file t = .ok (.more p') ∧ r' = { r with mode := .expr b start purpose p' }) ∨
      ∃ o fault, p.step file t = .ok (.done o fault) ∧
        r' = { r with
          fault := r.fault <|> fault
          mode := .stmt (b.add (purpose.stmt o.expr ((⟨start, t.stop⟩ : Extent).span file))) } := by
  cases h : p.step file t with
  | error e => simp [stepExpr, h, bind, Except.bind]
  | ok g =>
    cases g with
    | more p' => simp [stepExpr, h, bind, Except.bind, pure, Except.pure, eq_comm]
    | done o fault =>
      simp only [stepExpr, h, bind, Except.bind, pure, Except.pure]
      grind

end Reader

inductive ParamStart : List Lexeme → List Param → Prop
  | first : ParamStart [] []
  | next {ls : List Lexeme} {params : List Param} :
      SomeParams ls params → ParamStart (ls ++ [.symbol .comma]) params

inductive Signature.Lists (s : Signature) (q : List Lexeme → List Param → Prop)
    (ls : List Lexeme) : Prop
  | mk {as ns ps : List Lexeme} :
      Attributes as s.attributes → Named ns s.name → q ps (s.params.map Param.unspanned) →
      s.returnType = none → ls = as ++ ns ++ .symbol .lparen :: ps → Signature.Lists s q ls

inductive Signature.Heads (s : Signature) (ls : List Lexeme) : Prop
  | mk {as ns ps rs : List Lexeme} :
      Attributes as s.attributes → Named ns s.name → Params ps (s.params.map Param.unspanned) →
      Result rs s.returnType →
      ls = as ++ ns ++ .symbol .lparen :: ps ++ .symbol .rparen :: rs → Signature.Heads s ls

inductive Body.Reads (b : Body) (ls : List Lexeme) (fs : List NumeralFault) : Prop
  | mk {hs bs : List Lexeme} :
      b.signature.Heads hs → Statements bs (b.stmts.map Stmt.unspanned) fs →
      ls = hs ++ .symbol .lbrace :: bs → Body.Reads b ls fs

inductive Purpose.Reads : Purpose → List Lexeme → Prop
  | bind {name : List Char} :
      Purpose.Reads (.bind (String.ofList name))
        [.word ['l', 'e', 't'], .word name, .symbol .equals]
  | ret : Purpose.Reads .ret [.word ['r', 'e', 't', 'u', 'r', 'n']]
  | eval : Purpose.Reads .eval []

def Purpose.Allows (purpose : Purpose) (ls : List Lexeme) : Prop :=
  purpose = .eval → ∃ l rest, ls = l :: rest ∧ l.reserved = false

inductive Mode.Reads : Mode → List Lexeme → List NumeralFault → Prop
  | top {h : Heading} {ls : List Lexeme} :
      Attributes ls h.attributes → Mode.Reads (.top h) ls []
  | attributeName {h : Heading} {ls : List Lexeme} :
      Attributes ls h.attributes → Mode.Reads (.attributeName h) (ls ++ [.symbol .at]) []
  | functionName {h : Heading} {start : Position} {ls : List Lexeme} :
      Attributes ls h.attributes →
      Mode.Reads (.functionName h start) (ls ++ [.word ['f', 'n']]) []
  | paramsOpen {s : Signature} {as ns : List Lexeme} :
      Attributes as s.attributes → Named ns s.name → s.params = [] → s.returnType = none →
      Mode.Reads (.paramsOpen s) (as ++ ns) []
  | firstParam {s : Signature} {ls : List Lexeme} :
      s.Lists (fun ps params => ps = [] ∧ params = []) ls → Mode.Reads (.firstParam s) ls []
  | nextParam {s : Signature} {ls : List Lexeme} :
      s.Lists ParamStart ls → Mode.Reads (.nextParam s) ls []
  | paramColon {s : Signature} {name : List Char} {start : Position} {ls : List Lexeme} :
      s.Lists ParamStart ls →
      Mode.Reads (.paramColon s (String.ofList name) start) (ls ++ [.word name]) []
  | paramType {s : Signature} {name : List Char} {start : Position} {ls : List Lexeme} :
      s.Lists ParamStart ls →
      Mode.Reads (.paramType s (String.ofList name) start)
        (ls ++ [.word name, .symbol .colon]) []
  | paramEnd {s : Signature} {ls : List Lexeme} :
      s.Lists SomeParams ls → Mode.Reads (.paramEnd s) ls []
  | result {s : Signature} {ls : List Lexeme} :
      s.Lists Params ls → Mode.Reads (.result s) (ls ++ [.symbol .rparen]) []
  | resultType {s : Signature} {ls : List Lexeme} :
      s.Lists Params ls →
      Mode.Reads (.resultType s) (ls ++ [.symbol .rparen, .symbol .arrow]) []
  | bodyOpen {s : Signature} {ls : List Lexeme} :
      s.Heads ls → Mode.Reads (.bodyOpen s) ls []
  | stmt {b : Body} {ls : List Lexeme} {fs : List NumeralFault} :
      b.Reads ls fs → Mode.Reads (.stmt b) ls fs
  | bindName {b : Body} {start : Position} {ls : List Lexeme} {fs : List NumeralFault} :
      b.Reads ls fs → Mode.Reads (.bindName b start) (ls ++ [.word ['l', 'e', 't']]) fs
  | bindEquals {b : Body} {start : Position} {name : List Char} {ls : List Lexeme}
      {fs : List NumeralFault} :
      b.Reads ls fs →
      Mode.Reads (.bindEquals b start (String.ofList name))
        (ls ++ [.word ['l', 'e', 't'], .word name]) fs
  | retValue {b : Body} {start : Position} {ls : List Lexeme} {fs : List NumeralFault} :
      b.Reads ls fs →
      Mode.Reads (.retValue b start) (ls ++ [.word ['r', 'e', 't', 'u', 'r', 'n']]) fs
  | expr {b : Body} {start : Position} {purpose : Purpose} {p : Pending}
      {ls as bs cs : List Lexeme} {fs gs : List NumeralFault} :
      b.Reads as fs → purpose.Reads bs → p.Reads cs gs → purpose.Allows cs →
      ls = as ++ bs ++ cs → Mode.Reads (.expr b start purpose p) ls fs

/-- The fault of an expression counts once it is finished. -/
inductive Reader.Reads (r : Reader) (ls : List Lexeme) : Prop
  | mk {as bs : List Lexeme} {fa fb : List NumeralFault} :
      Program Named as (r.functions.map FunctionDecl.unspanned) fa → r.mode.Reads bs fb →
      ls = as ++ bs → r.fault.map NumeralError.fault = (fa ++ fb).head? → Reader.Reads r ls

theorem Reader.reads_empty : Reader.Reads {} [] := .mk .empty (.top .none) rfl rfl

namespace Signature.Lists

variable {q q' : List Lexeme → List Param → Prop}

theorem mono (h : s.Lists q ls) (hq : ∀ ps params, q ps params → q' ps params) :
    s.Lists q' ls := by
  obtain ⟨ha, hn, hp, hr, rfl⟩ := h
  exact .mk ha hn (hq _ _ hp) hr rfl

theorem extend (h : s.Lists q ls) (hq : ∀ ps params, q ps params → q' (ps ++ ms) params) :
    s.Lists q' (ls ++ ms) := by
  obtain ⟨ha, hn, hp, hr, rfl⟩ := h
  exact .mk ha hn (hq _ _ hp) hr (by simp)

theorem param (h : s.Lists ParamStart ls) (name ty : List Char) (span : Span) :
    Signature.Lists
      { s with params := s.params ++ [⟨String.ofList name, String.ofList ty, span⟩] } SomeParams
      (ls ++ [.word name, .symbol .colon, .word ty]) := by
  obtain @⟨as, ns, ps, ha, hn, hp, hr, rfl⟩ := h
  have hsome : SomeParams (ps ++ [.word name, .symbol .colon, .word ty])
      (s.params.map Param.unspanned ++ [⟨String.ofList name, String.ofList ty, {}⟩]) := by
    generalize s.params.map Param.unspanned = params at hp
    cases hp with
    | first => exact .one name ty
    | next hp => simpa using hp.snoc
  exact .mk ha hn (by simpa [Param.unspanned] using hsome) hr (by simp)

theorem heads (h : s.Lists Params ls) : s.Heads (ls ++ [.symbol .rparen]) := by
  obtain ⟨ha, hn, hp, hr, rfl⟩ := h
  exact .mk ha hn hp (by rw [hr]; exact .none) (by simp)

theorem headsWith (h : s.Lists Params ls) (ty : List Char) :
    Signature.Heads { s with returnType := some (String.ofList ty) }
      (ls ++ [.symbol .rparen, .symbol .arrow, .word ty]) := by
  obtain ⟨ha, hn, hp, hr, rfl⟩ := h
  exact .mk ha hn hp (.some ty) (by simp)

end Signature.Lists

theorem Body.Reads.snoc {stmt : Stmt} (h : b.Reads ls fs) (hs : Statement ms stmt.unspanned gs) :
    (b.add stmt).Reads (ls ++ ms) (fs ++ gs) := by
  obtain @⟨_, bs, hhead, hstmts, rfl⟩ := h
  have hsnoc : Statements (bs ++ ms) ((b.add stmt).stmts.map Stmt.unspanned) (fs ++ gs) := by
    simpa [Body.add] using hstmts.snoc hs
  exact .mk hhead hsnoc (by simp)

theorem Body.Reads.decl (h : b.Reads ls fs) (stop : Position) :
    Declaration Named (ls ++ [.symbol .rbrace]) (b.decl file stop).unspanned fs := by
  obtain ⟨⟨hattributes, hname, hparams, hresult, rfl⟩, hstmts, rfl⟩ := h
  exact .mk hattributes hname hparams hresult hstmts

theorem Purpose.Allows.append {purpose : Purpose} (h : purpose.Allows ls) (ms : List Lexeme) :
    purpose.Allows (ls ++ ms) := by
  intro heval
  obtain ⟨l, rest, rfl, hl⟩ := h heval
  exact ⟨l, rest ++ ms, rfl, hl⟩

theorem Purpose.Allows.of_append {purpose : Purpose} (h : purpose.Allows (ls ++ ms))
    (hne : ls ≠ []) : purpose.Allows ls := by
  intro heval
  obtain ⟨l, rest, he, hl⟩ := h heval
  cases ls with
  | nil => exact absurd rfl hne
  | cons l' rest' =>
    obtain ⟨rfl, rfl⟩ := List.cons.inj he
    exact ⟨_, _, rfl, hl⟩

theorem Purpose.stmt_unspanned (purpose : Purpose) (value : Expr) (span : Span) :
    (purpose.stmt value span).unspanned = purpose.stmt value.unspanned {} := by
  cases purpose <;> rfl

theorem Purpose.Reads.stmt {purpose : Purpose} {e : Expr} (h : purpose.Reads ls) (span : Span)
    (ha : purpose.Allows ms) (he : Expression .sum ms e.unspanned fs) :
    Statement (ls ++ ms ++ [.symbol .semicolon]) (purpose.stmt e span).unspanned fs := by
  cases h with
  | bind => exact .bind he
  | ret => exact .retValue he
  | eval =>
    obtain ⟨l, rest, rfl, hl⟩ := ha rfl
    exact .eval he (by simpa using hl)

namespace Reader

variable {as bs cs : List Lexeme} {fa fb fc : List NumeralFault} {decls : List FunctionDecl}

theorem stepExpr_reads {start : Position} {purpose : Purpose} {p : Pending}
    (hdecls : Program Named as (r.functions.map FunctionDecl.unspanned) fa) (hb : b.Reads bs fb)
    (hpurpose : purpose.Reads ks) (hp : p.Reads cs fc)
    (hfault : r.fault.map NumeralError.fault = (fa ++ fb).head?)
    (ha : purpose.Allows (cs ++ [t.lexeme]))
    (h : r.stepExpr file b start purpose p t = .ok r') :
    r'.Reads (as ++ (bs ++ ks ++ cs) ++ [t.lexeme]) := by
  rcases stepExpr_eq_ok.mp h with ⟨p', hstep, rfl⟩ | ⟨o, fault, hstep, rfl⟩
  · obtain ⟨gs, hp'⟩ := Pending.step_reads hp hstep
    exact .mk hdecls (.expr hb hpurpose hp' ha rfl) (by simp) hfault
  · obtain ⟨hl, he, hf⟩ := Pending.step_reads hp hstep
    have hstmt := hpurpose.stmt ((⟨start, t.stop⟩ : Extent).span file)
      (ha.of_append he.ne_nil) he
    refine .mk hdecls (.stmt (hb.snoc hstmt)) (by simp [hl]) ?_
    rw [← List.append_assoc, List.head?_append, ← hfault, ← hf]
    cases r.fault <;> simp

section

variable {m : Mode} {l : Lexeme} {next : String → Mode} {sym : Symbol}
variable (hdecls : Program Named as (r.functions.map FunctionDecl.unspanned) fa)
  (hfault : r.fault.map NumeralError.fault = (fa ++ fb).head?)

include hdecls hfault

theorem reads_of_mode (hm : m.Reads (bs ++ [l]) fb) :
    Reads { r with mode := m } (as ++ bs ++ [l]) :=
  .mk hdecls hm (by simp) hfault

theorem reads_of_lexeme (hl : t.lexeme = l) (h : r.goto (.ok m) = .ok r')
    (hm : m.Reads (bs ++ [l]) fb) : r'.Reads (as ++ bs ++ [t.lexeme]) := by
  obtain ⟨m', hm', rfl⟩ := goto_eq_ok.mp h
  obtain rfl := Except.ok.inj hm'
  rw [hl]
  exact reads_of_mode hdecls hfault hm

theorem reads_of_name (h : r.goto (Mode.name t next) = .ok r')
    (hm : ∀ name, (next (String.ofList name)).Reads (bs ++ [.word name]) fb) :
    r'.Reads (as ++ bs ++ [t.lexeme]) := by
  obtain ⟨name, hl, rfl⟩ := goto_name_eq_ok.mp h
  rw [hl]
  exact reads_of_mode hdecls hfault (hm name)

theorem reads_of_symbol (h : r.goto (Mode.symbol sym t m) = .ok r')
    (hm : m.Reads (bs ++ [.symbol sym]) fb) : r'.Reads (as ++ bs ++ [t.lexeme]) := by
  obtain ⟨hl, rfl⟩ := goto_symbol_eq_ok.mp h
  rw [hl]
  exact reads_of_mode hdecls hfault hm

end

theorem stepStmt_reads (hdecls : Program Named as (r.functions.map FunctionDecl.unspanned) fa)
    (hb : b.Reads bs fb) (hfault : r.fault.map NumeralError.fault = (fa ++ fb).head?)
    (h : r.stepStmt file b t = .ok r') : r'.Reads (as ++ bs ++ [t.lexeme]) := by
  simp only [stepStmt] at h
  split at h
  · next hl =>
    obtain rfl := Except.ok.inj h
    have hdecl : Program Named (as ++ (bs ++ [.symbol .rbrace]))
        ((r.functions ++ [b.decl file t.stop]).map FunctionDecl.unspanned) (fa ++ fb) := by
      simpa using hdecls.snoc (hb.decl t.stop)
    exact .mk hdecl (.top .none) (by simp [hl]) (by simpa using hfault)
  · next hl =>
    obtain rfl := Except.ok.inj h
    exact reads_of_mode hdecls hfault (hl ▸ .bindName hb)
  · next hl =>
    obtain rfl := Except.ok.inj h
    exact reads_of_mode hdecls hfault (hl ▸ .retValue hb)
  · next hrbrace hlet hreturn =>
    have hread := stepExpr_reads hdecls hb .eval Pending.reads_empty hfault ?_ h
    · simpa using hread
    intro _
    refine ⟨t.lexeme, [], rfl, ?_⟩
    simp only [Lexeme.reserved]

theorem stepMode_reads (hr : r.Reads ls) (h : r.stepMode file t = .ok r') :
    r'.Reads (ls ++ [t.lexeme]) := by
  obtain @⟨as, bs, fa, fb, hdecls, hmode, rfl, hfault⟩ := hr
  generalize hm : r.mode = mode at hmode
  cases hmode with
  | top ha =>
    simp only [stepMode, hm] at h
    split at h
    · next hl => exact reads_of_lexeme hdecls hfault hl h (.attributeName ha)
    · next hl => exact reads_of_lexeme hdecls hfault hl h (.functionName ha)
    · simp [Token.unexpected] at h
  | attributeName ha =>
    simp only [stepMode, hm] at h
    apply reads_of_name hdecls hfault h
    intro name
    rw [List.append_assoc]
    exact .top ha.snoc
  | functionName ha =>
    simp only [stepMode, hm] at h
    apply reads_of_name hdecls hfault h
    intro name
    rw [List.append_assoc]
    exact .paramsOpen ha (.apart name) rfl rfl
  | paramsOpen ha hn hp hr =>
    simp only [stepMode, hm] at h
    exact reads_of_symbol hdecls hfault h (.firstParam (.mk ha hn ⟨rfl, by rw [hp]; rfl⟩ hr rfl))
  | firstParam hs =>
    obtain ⟨ha, hn, ⟨rfl, hps⟩, hr, rfl⟩ := hs
    simp only [stepMode, hm] at h
    split at h
    · next hl =>
      apply reads_of_lexeme hdecls hfault hl h
      exact .result (.mk ha hn (by rw [hps]; exact .none) hr rfl)
    · apply reads_of_name hdecls hfault h
      intro name
      exact .paramColon (.mk ha hn (by rw [hps]; exact .first) hr rfl)
  | nextParam hs =>
    simp only [stepMode, hm] at h
    exact reads_of_name hdecls hfault h fun _ => .paramColon hs
  | paramColon hs =>
    simp only [stepMode, hm] at h
    apply reads_of_symbol hdecls hfault h
    rw [List.append_assoc]
    exact .paramType hs
  | paramType hs =>
    simp only [stepMode, hm] at h
    apply reads_of_name hdecls hfault h
    intro ty
    rw [List.append_assoc]
    exact .paramEnd (hs.param _ ty _)
  | paramEnd hs =>
    simp only [stepMode, hm] at h
    split at h
    · next hl =>
      exact reads_of_lexeme hdecls hfault hl h (.nextParam (hs.extend fun _ _ hp => .next hp))
    · exact reads_of_symbol hdecls hfault h (.result (hs.mono fun _ _ hp => .some hp))
  | result hs =>
    simp only [stepMode, hm] at h
    split at h
    · next hl =>
      apply reads_of_lexeme hdecls hfault hl h
      rw [List.append_assoc]
      exact .resultType hs
    · exact reads_of_symbol hdecls hfault h (.stmt (.mk hs.heads .empty rfl))
  | resultType hs =>
    simp only [stepMode, hm] at h
    apply reads_of_name hdecls hfault h
    intro ty
    rw [List.append_assoc]
    exact .bodyOpen (hs.headsWith ty)
  | bodyOpen hs =>
    simp only [stepMode, hm] at h
    exact reads_of_symbol hdecls hfault h (.stmt (.mk hs .empty rfl))
  | stmt hb =>
    simp only [stepMode, hm] at h
    exact stepStmt_reads hdecls hb hfault h
  | bindName hb =>
    simp only [stepMode, hm] at h
    apply reads_of_name hdecls hfault h
    intro name
    rw [List.append_assoc]
    exact .bindEquals hb
  | bindEquals hb =>
    simp only [stepMode, hm] at h
    apply reads_of_symbol hdecls hfault h
    rw [List.append_assoc]
    exact .expr hb .bind Pending.reads_empty (fun heval => by cases heval) (by simp)
  | retValue hb =>
    simp only [stepMode, hm] at h
    split at h
    · next hl =>
      apply reads_of_lexeme hdecls hfault hl h
      have hret : ∀ span, Statement [.word ['r', 'e', 't', 'u', 'r', 'n'], .symbol .semicolon]
          (Stmt.ret none span).unspanned [] := fun _ => .ret
      simpa using Mode.Reads.stmt (hb.snoc (hret _))
    · have hread := stepExpr_reads hdecls hb .ret Pending.reads_empty hfault
        (fun heval => by cases heval) h
      simpa using hread
  | expr hb hpurpose hp ha hls =>
    simp only [stepMode, hm] at h
    rw [hls]
    exact stepExpr_reads hdecls hb hpurpose hp hfault (ha.append _) h

theorem step_reads (hr : r.Reads ls) (h : r.step file t = .ok r') :
    r'.Reads (ls ++ [t.lexeme]) := by
  obtain ⟨r₁, hmode, rfl⟩ := step_eq_ok.mp h
  obtain ⟨hdecls, hm, hls, hfault⟩ := stepMode_reads hr hmode
  exact .mk hdecls hm hls hfault

theorem take_reads (hr : r.Reads ls) (h : r.take file t = .ok r') :
    r'.Reads (ls ++ [t.lexeme]) := by
  simp only [take] at h
  split at h
  · next heading c cs hm hl =>
    split at h
    · next hstart =>
      obtain ⟨hdecls, hmode, rfl, hfault⟩ := hr
      rw [hm] at hmode
      cases hmode with
      | top ha =>
        simp only [step, stepMode, hm, Lexeme.functionWord, goto, Mode.name, bind, Except.bind,
          pure, Except.pure] at h
        obtain rfl := Except.ok.inj h
        exact .mk hdecls (.paramsOpen ha (.joined hstart) rfl rfl) (by rw [hl]; simp) hfault
    · simp [Token.unexpected] at h
  · exact step_reads hr h

theorem takes_reads {ts : List Token} (hr : r.Reads ls) (h : ts.foldlM (take file) r = .ok r') :
    r'.Reads (ls ++ ts.map Token.lexeme) := by
  induction ts generalizing r ls with
  | nil =>
    obtain rfl := Except.ok.inj h
    simpa using hr
  | cons t ts ih =>
    rw [List.foldlM_cons] at h
    cases ht : r.take file t with
    | error e => simp [ht, bind, Except.bind] at h
    | ok r₁ =>
      simp only [ht] at h
      simpa using ih (take_reads hr ht) h

theorem finish_eq_ok : r.finish = .ok decls ↔ r.mode = .top {} ∧ decls = r.functions := by
  simp only [finish]
  split <;> simp_all [eq_comm]

theorem program_of_finish (hr : r.Reads ls) (h : r.finish = .ok decls) :
    decls = r.functions ∧ ∃ fs, Program Named ls (decls.map FunctionDecl.unspanned) fs ∧
      r.fault.map NumeralError.fault = fs.head? := by
  obtain ⟨hdecls, hmode, rfl, hfault⟩ := hr
  obtain ⟨hm, rfl⟩ := finish_eq_ok.mp h
  rw [hm] at hmode
  cases hmode with
  | top ha =>
    obtain rfl := ha.eq_nil rfl
    exact ⟨rfl, _, by simpa using hdecls, by simpa using hfault⟩

end Reader

end ContractGuard
