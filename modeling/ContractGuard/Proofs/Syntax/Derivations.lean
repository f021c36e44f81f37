import ContractGuard.Proofs.Syntax.Declarations

/-!
# Following a derivation

Wherever the lexemes of a derivation stand, the steps of the reader lead over them, part by
part, and leave the declarations of the derivation and the first fault among its numerals.
-/

namespace ContractGuard

open Grammar

variable {file : Option String} {ls ms : List Lexeme} {fs : List NumeralFault}
  {r r' : Reader} {t : Token} {b : Body} {s : Signature}

namespace Reader

structure Moves (r : Reader) (q : Mode → Prop) (r' : Reader) : Prop where
  functions : r'.functions = r.functions
  fault : r'.fault = r.fault
  mode : q r'.mode

variable {l : Lexeme} {q : Mode → Prop}

theorem leads_cons {m : Token → Mode}
    (h : ∀ t : Token, t.lexeme = l → r.take file t = .ok { r with mode := m t, last := t.start })
    (hnext : ∀ (t : Token) (r₁ : Reader), r₁.mode = m t → Leads (take file) r₁ ls (r₁.Moves q)) :
    Leads (take file) r (l :: ls) (r.Moves q) := by
  apply Leads.cons
  intro t ht
  refine ⟨_, h t ht, (hnext t _ rfl).mono ?_⟩
  intro r' h'
  exact ⟨h'.functions, h'.fault, h'.mode⟩

theorem leads_single {m : Token → Mode} (hq : ∀ t, q (m t))
    (h : ∀ t : Token, t.lexeme = l →
      r.take file t = .ok { r with mode := m t, last := t.start }) :
    Leads (take file) r [l] (r.Moves q) := by
  apply leads_cons h
  intro t r₁ hm
  exact .nil ⟨rfl, rfl, hm ▸ hq t⟩

theorem leads_append {q' : Mode → Prop} (h : Leads (take file) r ls (r.Moves q'))
    (hnext : ∀ r₁ : Reader, q' r₁.mode → Leads (take file) r₁ ms (r₁.Moves q)) :
    Leads (take file) r (ls ++ ms) (r.Moves q) := by
  apply h.append
  intro r₁ h₁
  apply (hnext r₁ h₁.mode).mono
  intro r' h'
  exact ⟨h'.functions.trans h₁.functions, h'.fault.trans h₁.fault, h'.mode⟩

theorem take_goto {m : Mode} (hm : ∀ heading, r.mode ≠ .top heading)
    (h : r.stepMode file t = r.goto (.ok m)) :
    r.take file t = .ok { r with mode := m, last := t.start } := by
  rw [take_eq_step hm, step, h]
  rfl

end Reader

namespace Grammar

open Reader

theorem Attributes.leads {attributes : List RawAttribute} (h : Attributes ls attributes)
    (hm : r.mode = .top {}) :
    Leads (take file) r ls
      (r.Moves fun m => ∃ h : Heading, m = .top h ∧ h.attributes = attributes) := by
  induction h with
  | none => exact .nil ⟨rfl, rfl, {}, hm, rfl⟩
  | @snoc _ _ name _ ih =>
    apply leads_append ih
    rintro r₁ ⟨h, hm₁, rfl⟩
    apply leads_cons (m := fun t => .attributeName { h with start := h.start <|> some t.start })
    · intro t ht
      simp only [take, step, stepMode, hm₁, ht]
      rfl
    intro t r₂ hm₂
    refine leads_single (m := fun _ => .top { h with
      start := h.start <|> some t.start
      attributes := h.attributes ++ [.text (String.ofList name)] }) (fun _ => ⟨_, rfl, rfl⟩) ?_
    intro t' ht'
    exact take_goto (by simp [hm₂]) (by simp only [stepMode, hm₂, ht', Mode.name])

def Opens (attributes : List RawAttribute) (name : String) (s : Signature) : Prop :=
  s.attributes = attributes ∧ s.name = name ∧ s.params = [] ∧ s.returnType = none

theorem Named.leads {name : String} {h : Heading} (hn : Named ls name) (hm : r.mode = .top h) :
    Leads (take file) r ls
      (r.Moves fun m => ∃ s, m = .paramsOpen s ∧ Opens h.attributes name s) := by
  cases hn with
  | apart name =>
    apply leads_cons (m := fun t => .functionName h (h.start.getD t.start))
    · intro t ht
      simp only [take, step, stepMode, hm, ht]
      rfl
    intro t r₁ hm₁
    refine leads_single (m := fun _ => .paramsOpen
      { start := h.start.getD t.start, attributes := h.attributes, name := String.ofList name })
      (fun _ => ⟨_, rfl, rfl, rfl, rfl, rfl⟩) ?_
    intro t' ht'
    exact take_goto (by simp [hm₁]) (by simp only [stepMode, hm₁, ht', Mode.name])
  | @joined c cs hstart =>
    apply Leads.single
    intro t ht
    refine ⟨{ r with
      mode := .paramsOpen { start := h.start.getD t.start, attributes := h.attributes
                            name := String.ofList (c :: cs) }
      last := t.start.after Lexeme.functionWord }, ?_, rfl, rfl, _, rfl, rfl, rfl, rfl, rfl⟩
    simp only [take, hm, ht, hstart, if_true]
    simp only [step, stepMode, hm, Lexeme.functionWord]
    rfl

def ListsParams (s : Signature) (params : List Param) (s' : Signature) : Prop :=
  s'.params.map Param.unspanned = params ∧ s'.attributes = s.attributes ∧ s'.name = s.name ∧
    s'.returnType = s.returnType

theorem SomeParams.leads {params : List Param} (h : SomeParams ls params)
    (hm : r.mode = .firstParam s) (hs : s.params = []) :
    Leads (take file) r ls (r.Moves fun m => ∃ s', m = .paramEnd s' ∧ ListsParams s params s') := by
  have hparam : ∀ (r₁ : Reader) (s₁ : Signature) (name ty : List Char),
      (r₁.mode = .firstParam s₁ ∨ r₁.mode = .nextParam s₁) →
      Leads (take file) r₁ [.word name, .symbol .colon, .word ty]
        (r₁.Moves fun m => ∃ s', m = .paramEnd s' ∧ ListsParams s₁
          (s₁.params.map Param.unspanned ++ [⟨String.ofList name, String.ofList ty, {}⟩]) s') := by
    intro r₁ s₁ name ty hm₁
    apply leads_cons (m := fun t => .paramColon s₁ (String.ofList name) t.start)
    · intro t ht
      rcases hm₁ with hm₁ | hm₁
      · exact take_goto (by simp [hm₁]) (by simp [stepMode, hm₁, ht, Mode.name])
      · exact take_goto (by simp [hm₁]) (by simp only [stepMode, hm₁, ht, Mode.name])
    intro t r₂ hm₂
    apply leads_cons (m := fun _ => .paramType s₁ (String.ofList name) t.start)
    · intro t' ht'
      exact take_goto (by simp [hm₂]) (by simp [stepMode, hm₂, ht', Mode.symbol])
    intro t' r₃ hm₃
    refine leads_single (m := fun t'' => .paramEnd { s₁ with
      params := s₁.params ++ [⟨String.ofList name, String.ofList ty,
        (⟨t.start, t''.stop⟩ : Extent).span file⟩] }) ?_ ?_
    · intro t''
      exact ⟨_, rfl, by simp [Param.unspanned], rfl, rfl, rfl⟩
    · intro t'' ht''
      exact take_goto (by simp [hm₃]) (by simp only [stepMode, hm₃, ht'', Mode.name])
  induction h with
  | one name ty => simpa [hs] using hparam r s name ty (.inl hm)
  | @snoc _ _ name ty _ ih =>
    apply leads_append ih
    rintro r₁ ⟨s₁, hm₁, rfl, ha, hn, hr⟩
    apply leads_cons (m := fun _ => .nextParam s₁)
    · intro t ht
      exact take_goto (by simp [hm₁]) (by simp [stepMode, hm₁, ht])
    intro t r₂ hm₂
    apply (hparam r₂ s₁ name ty (.inr hm₂)).mono
    rintro r₃ ⟨hf, hfault, s₃, hm₃, hp₃, ha₃, hn₃, hr₃⟩
    exact ⟨hf, hfault, s₃, hm₃, hp₃, ha₃.trans ha, hn₃.trans hn, hr₃.trans hr⟩

theorem Params.leads {params : List Param} (h : Params ls params)
    (hm : r.mode = .firstParam s) (hs : s.params = []) :
    Leads (take file) r (ls ++ [.symbol .rparen])
      (r.Moves fun m => ∃ s', m = .result s' ∧ ListsParams s params s') := by
  cases h with
  | none =>
    refine leads_single (m := fun _ => .result s) ?_ ?_
    · exact fun _ => ⟨s, rfl, by simp [hs], rfl, rfl, rfl⟩
    intro t ht
    exact take_goto (by simp [hm]) (by simp [stepMode, hm, ht])
  | some h =>
    apply leads_append (h.leads hm hs)
    rintro r₁ ⟨s₁, hm₁, hs₁⟩
    refine leads_single (m := fun _ => .result s₁) (fun _ => ⟨s₁, rfl, hs₁⟩) ?_
    intro t ht
    exact take_goto (by simp [hm₁]) (by simp [stepMode, hm₁, ht, Mode.symbol])

theorem Result.leads {result : Option String} (h : Result ls result) (hm : r.mode = .result s)
    (hs : s.returnType = .none) :
    Leads (take file) r (ls ++ [.symbol .lbrace])
      (r.Moves fun m => m = .stmt { signature := { s with returnType := result } }) := by
  cases h with
  | none =>
    refine leads_single (m := fun _ => .stmt { signature := s }) (fun _ => by rw [← hs]) ?_
    intro t ht
    exact take_goto (by simp [hm]) (by simp [stepMode, hm, ht, Mode.symbol])
  | some ty =>
    apply leads_cons (m := fun _ => .resultType s)
    · intro t ht
      exact take_goto (by simp [hm]) (by simp [stepMode, hm, ht])
    intro t r₁ hm₁
    apply leads_cons (m := fun _ => .bodyOpen { s with returnType := .some (String.ofList ty) })
    · intro t ht
      exact take_goto (by simp [hm₁]) (by simp only [stepMode, hm₁, ht, Mode.name])
    intro t r₂ hm₂
    refine leads_single (m := fun _ => .stmt _) (fun _ => rfl) ?_
    intro t ht
    exact take_goto (by simp [hm₂]) (by simp [stepMode, hm₂, ht, Mode.symbol])

theorem take_advance {start : Position} {purpose : Purpose} {p p' : Pending}
    (hm : r.mode = .expr b start purpose p) (h : p.advance file t = .ok p') :
    r.take file t = .ok { r with mode := .expr b start purpose p', last := t.start } := by
  rw [take_eq_step (by simp [hm]), step_eq_ok]
  simp only [stepMode, hm]
  exact ⟨_, stepExpr_eq_ok.mpr (.inl ⟨p', Pending.advance_eq_ok.mp h, rfl⟩), rfl⟩

theorem take_done {start : Position} {purpose : Purpose} {p : Pending} {o : Operand}
    {fault : Option NumeralError} (hm : r.mode = .expr b start purpose p)
    (h : p.step file t = .ok (.done o fault)) :
    r.take file t = .ok { r with
      fault := r.fault <|> fault
      last := t.start
      mode := .stmt (b.add (purpose.stmt o.expr ((⟨start, t.stop⟩ : Extent).span file))) } := by
  rw [take_eq_step (by simp [hm]), step_eq_ok]
  simp only [stepMode, hm]
  exact ⟨_, stepExpr_eq_ok.mpr (.inr ⟨o, fault, h, rfl⟩), rfl⟩

theorem takes_advance {start : Position} {purpose : Purpose} {p p' : Pending} {ts : List Token}
    (hm : r.mode = .expr b start purpose p) (h : ts.foldlM (Pending.advance file) p = .ok p') :
    ∃ last, ts.foldlM (take file) r =
      .ok { r with mode := .expr b start purpose p', last := last } := by
  induction ts generalizing r p with
  | nil =>
    obtain rfl := Except.ok.inj h
    exact ⟨r.last, by rw [← hm]; rfl⟩
  | cons t ts ih =>
    rw [List.foldlM_cons] at h ⊢
    cases ht : p.advance file t with
    | error e => simp [ht, bind, Except.bind] at h
    | ok p₁ =>
      simp only [ht] at h
      rw [take_advance hm ht]
      exact ih rfl h

/-- Statements have been added to the body. -/
structure Adds (r : Reader) (b : Body) (stmts : List Stmt) (fs : List NumeralFault)
    (r' : Reader) : Prop where
  functions : r'.functions = r.functions
  fault : r'.fault.map NumeralError.fault = (r.fault.map NumeralError.fault <|> fs.head?)
  mode : ∃ b', r'.mode = .stmt b' ∧ b'.signature = b.signature ∧
    b'.stmts.map Stmt.unspanned = b.stmts.map Stmt.unspanned ++ stmts

theorem Expression.leads {r₀ : Reader} {start : Position} {e : Expr} (purpose : Purpose)
    (he : Expression .sum ls e fs) (hr : r₀.Moves (· = .expr b start purpose {}) r) :
    Leads (take file) r (ls ++ [.symbol .semicolon]) (Adds r₀ b [purpose.stmt e {}] fs) := by
  have hpending : Leads (take file) r ls fun r₁ => ∃ p' last,
      r₁ = { r with mode := .expr b start purpose p', last := last } ∧
        Pending.Spells file {} .sum e fs p' := by
    intro ts hts
    obtain ⟨p', hfold, hspells⟩ := he.feeds (p := {}) ⟨rfl, rfl⟩ ts hts
    obtain ⟨last, htakes⟩ := takes_advance hr.mode hfold
    exact ⟨_, htakes, p', last, rfl, hspells⟩
  apply hpending.append
  rintro _ ⟨p', last, rfl, hframes, ⟨o, ho, hclose⟩, hfault⟩
  apply Leads.single
  intro t ht
  refine ⟨_, take_done rfl (Pending.step_semicolon ho ht hframes), hr.functions, ?_, _, rfl, rfl,
    ?_⟩
  · have hfault' : p'.fault.map NumeralError.fault = fs.head? := by simpa using hfault
    rw [← hfault', ← hr.fault]
    cases r.fault <;> simp
  · simp [Body.add, Purpose.stmt_unspanned, hclose]

/-- The first token of an expression is read as if the expression were already open. -/
theorem Leads.reopen {q : Reader → Prop} (hne : ls ≠ [])
    (h : ∀ t : Token, ls.head? = some t.lexeme →
      ∃ r₁, r.take file t = r₁.take file t ∧ Leads (take file) r₁ ls q) :
    Leads (take file) r ls q := by
  intro ts hts
  cases ts with
  | nil => exact absurd hts.symm hne
  | cons t ts =>
    obtain ⟨r₁, hfirst, hleads⟩ := h t (by rw [← hts]; rfl)
    obtain ⟨r', hfold, hq⟩ := hleads (t :: ts) hts
    rw [List.foldlM_cons] at hfold ⊢
    exact ⟨r', hfirst ▸ hfold, hq⟩

theorem stepStmt_eq_stepExpr (hrbrace : t.lexeme ≠ .symbol .rbrace)
    (h : t.lexeme.reserved = false) :
    r.stepStmt file b t = r.stepExpr file b t.start .eval {} t := by
  simp only [stepStmt]
  split
  · next hl => exact absurd hl hrbrace
  · next hl => simp [hl, Lexeme.reserved] at h
  · next hl => simp [hl, Lexeme.reserved] at h
  · rfl

theorem take_let (hm : r.mode = .stmt b) (ht : t.lexeme = .word ['l', 'e', 't']) :
    r.take file t = .ok { r with mode := .bindName b t.start, last := t.start } := by
  rw [take_eq_step (by simp [hm])]
  simp only [step, stepMode, stepStmt, hm, ht]
  rfl

theorem take_return (hm : r.mode = .stmt b)
    (ht : t.lexeme = .word ['r', 'e', 't', 'u', 'r', 'n']) :
    r.take file t = .ok { r with mode := .retValue b t.start, last := t.start } := by
  rw [take_eq_step (by simp [hm])]
  simp only [step, stepMode, stepStmt, hm, ht]
  rfl

theorem leads_binding (name : List Char) (hm : r.mode = .stmt b) :
    Leads (take file) r [.word ['l', 'e', 't'], .word name, .symbol .equals]
      (r.Moves fun m => ∃ start, m = .expr b start (.bind (String.ofList name)) {}) := by
  apply leads_cons (m := fun t => .bindName b t.start)
  · exact fun t ht => take_let hm ht
  intro t r₁ hm₁
  apply leads_cons (m := fun _ => .bindEquals b t.start (String.ofList name))
  · intro t' ht'
    exact take_goto (by simp [hm₁]) (by simp only [stepMode, hm₁, ht', Mode.name])
  intro t' r₂ hm₂
  refine leads_single (m := fun _ => .expr b t.start (.bind (String.ofList name)) {})
    (fun _ => ⟨_, rfl⟩) ?_
  intro t'' ht''
  exact take_goto (by simp [hm₂]) (by simp [stepMode, hm₂, ht'', Mode.symbol])

theorem Statement.leads {stmt : Stmt} (h : Statement ls stmt fs) (hm : r.mode = .stmt b) :
    Leads (take file) r ls (Adds r b [stmt] fs) := by
  cases h with
  | @bind name ls e _ he =>
    have hvalue : Leads (take file) r
        ([.word ['l', 'e', 't'], .word name, .symbol .equals] ++ (ls ++ [.symbol .semicolon]))
        (Adds r b [.bind (String.ofList name) e {}] fs) := by
      apply (leads_binding name hm).append
      rintro r₁ ⟨hfunctions, hfault, start, hm₁⟩
      exact he.leads (.bind (String.ofList name)) ⟨hfunctions, hfault, hm₁⟩
    simpa using hvalue
  | ret =>
    apply Leads.cons
    intro t ht
    refine ⟨_, take_return hm ht, ?_⟩
    apply Leads.single
    intro t' ht'
    refine ⟨_, take_goto (m := .stmt (b.add (.ret none ((⟨t.start, t'.stop⟩ : Extent).span file))))
      (by simp) (by simp [stepMode, ht']), rfl, by simp, _, rfl, rfl, ?_⟩
    simp [Body.add, Stmt.unspanned]
  | @retValue ls e _ he =>
    rw [List.cons_append]
    apply Leads.cons
    intro t ht
    refine ⟨_, take_return hm ht, ?_⟩
    obtain ⟨l, rest, rfl, hsemicolon, _⟩ := he.begins
    apply Leads.reopen (by simp)
    intro t' ht'
    obtain rfl : l = t'.lexeme := by simpa using ht'
    refine ⟨{ r with mode := .expr b t.start .ret {}, last := t.start }, ?_,
      he.leads .ret ⟨rfl, rfl, rfl⟩⟩
    rw [take_eq_step (by simp), take_eq_step (by simp)]
    simp only [step, stepMode, if_neg hsemicolon, stepExpr]
  | @eval ls e _ he hfirst =>
    obtain ⟨l, rest, rfl, _, hrbrace⟩ := he.begins
    apply Leads.reopen (by simp)
    intro t ht
    obtain rfl : l = t.lexeme := by simpa using ht
    refine ⟨{ r with mode := .expr b t.start .eval {} }, ?_, he.leads .eval ⟨rfl, rfl, rfl⟩⟩
    rw [take_eq_step (by simp [hm]), take_eq_step (by simp)]
    simp only [step, stepMode, hm]
    rw [stepStmt_eq_stepExpr hrbrace (by simpa using hfirst)]
    rfl

theorem Statements.leads {stmts : List Stmt} (h : Statements ls stmts fs)
    (hm : r.mode = .stmt b) : Leads (take file) r ls (Adds r b stmts fs) := by
  induction h with
  | empty => exact .nil ⟨rfl, by simp, b, hm, rfl, by simp⟩
  | snoc _ hstmt ih =>
    apply ih.append
    rintro r₁ ⟨hfunctions₁, hfault₁, b₁, hm₁, hsignature₁, hstmts₁⟩
    apply (hstmt.leads hm₁).mono
    rintro r₂ ⟨hfunctions₂, hfault₂, b₂, hm₂, hsignature₂, hstmts₂⟩
    refine ⟨hfunctions₂.trans hfunctions₁, ?_, b₂, hm₂, hsignature₂.trans hsignature₁, ?_⟩
    · rw [hfault₂, hfault₁]
      simp [Option.or_assoc]
    · rw [hstmts₂, hstmts₁, List.append_assoc]

structure Declares (r : Reader) (decls : List FunctionDecl) (fs : List NumeralFault)
    (r' : Reader) : Prop where
  functions : r'.functions.map FunctionDecl.unspanned =
    r.functions.map FunctionDecl.unspanned ++ decls
  fault : r'.fault.map NumeralError.fault = (r.fault.map NumeralError.fault <|> fs.head?)
  mode : r'.mode = .top {}

theorem Declaration.leads_heading {as ns ps rs : List Lexeme} {attributes : List RawAttribute}
    {name : String} {params : List Param} {result : Option String}
    (ha : Attributes as attributes) (hn : Named ns name) (hp : Params ps params)
    (hr : Result rs result) (hm : r.mode = .top {}) :
    Leads (take file) r
      (as ++ (ns ++ ([.symbol .lparen] ++ (ps ++ [.symbol .rparen] ++ (rs ++ [.symbol .lbrace])))))
      (r.Moves fun m => ∃ s : Signature, m = .stmt { signature := s } ∧ s.name = name ∧
        s.attributes = attributes ∧ s.params.map Param.unspanned = params ∧
        s.returnType = result) := by
  apply leads_append (ha.leads hm)
  rintro r₁ ⟨h, hm₁, rfl⟩
  apply leads_append (hn.leads hm₁)
  rintro r₂ ⟨s, hm₂, hattributes, hname, hparams, hresult⟩
  have hparen : Leads (take file) r₂ [.symbol .lparen] (r₂.Moves fun m => m = .firstParam s) := by
    refine leads_single (m := fun _ => .firstParam s) (fun _ => rfl) ?_
    intro t ht
    exact take_goto (by simp [hm₂]) (by simp [stepMode, hm₂, ht, Mode.symbol])
  apply leads_append hparen
  intro r₃ hm₃
  apply leads_append (hp.leads hm₃ hparams)
  rintro r₄ ⟨s₄, hm₄, hparams₄, hattributes₄, hname₄, hresult₄⟩
  apply (hr.leads hm₄ (hresult₄.trans hresult)).mono
  rintro r₅ ⟨hfunctions, hfault, hm₅⟩
  exact ⟨hfunctions, hfault, _, hm₅, hname₄.trans hname, hattributes₄.trans hattributes, hparams₄,
    rfl⟩

theorem take_rbrace (hm : r.mode = .stmt b) (ht : t.lexeme = .symbol .rbrace) :
    r.take file t = .ok { r with
      functions := r.functions ++ [b.decl file t.stop]
      last := t.start
      mode := .top {} } := by
  rw [take_eq_step (by simp [hm]), step_eq_ok]
  simp only [stepMode, stepStmt, hm, ht]
  exact ⟨_, rfl, rfl⟩

theorem Declaration.leads {d : FunctionDecl} (h : Declaration Named ls d fs)
    (hm : r.mode = .top {}) : Leads (take file) r ls (Declares r [d] fs) := by
  obtain @⟨as, ns, ps, rs, bs, _, _, _, _, stmts, _, ha, hn, hp, hr, hstmts⟩ := h
  have hlexemes : as ++ ns ++ .symbol .lparen :: ps ++ .symbol .rparen :: rs ++
        .symbol .lbrace :: bs ++ [.symbol .rbrace] =
      as ++ (ns ++ ([.symbol .lparen] ++ (ps ++ [.symbol .rparen] ++ (rs ++ [.symbol .lbrace])))) ++
        (bs ++ [.symbol .rbrace]) := by simp
  rw [hlexemes]
  apply (leads_heading ha hn hp hr hm).append
  rintro r₁ ⟨hfunctions₁, hfault₁, s, hm₁, rfl, rfl, rfl, rfl⟩
  apply (hstmts.leads hm₁).append
  rintro r₂ ⟨hfunctions₂, hfault₂, b, hm₂, hsignature, hbody⟩
  apply Leads.single
  intro t ht
  refine ⟨_, take_rbrace hm₂ ht, ?_, ?_, rfl⟩
  · have hdecl : (b.decl file t.stop).unspanned =
        ⟨s.name, s.attributes, s.params.map Param.unspanned, s.returnType, stmts, {}⟩ := by
      simp only [Body.decl, FunctionDecl.unspanned, hsignature, hbody, List.map_nil,
        List.nil_append]
    rw [List.map_append, hfunctions₂, hfunctions₁, List.map_singleton, hdecl]
  · rw [hfault₂, hfault₁]

theorem Program.leads {decls : List FunctionDecl} (h : Program Named ls decls fs)
    (hm : r.mode = .top {}) : Leads (take file) r ls (Declares r decls fs) := by
  induction h with
  | empty => exact .nil ⟨by simp, by simp, hm⟩
  | snoc _ hdecl ih =>
    apply ih.append
    rintro r₁ ⟨hfunctions₁, hfault₁, hm₁⟩
    apply (hdecl.leads hm₁).mono
    rintro r₂ ⟨hfunctions₂, hfault₂, hm₂⟩
    refine ⟨?_, ?_, hm₂⟩
    · rw [hfunctions₂, hfunctions₁, List.append_assoc]
    · rw [hfault₂, hfault₁]
      simp [Option.or_assoc]

end Grammar

end ContractGuard
