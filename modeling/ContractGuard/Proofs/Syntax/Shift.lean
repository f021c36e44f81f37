import ContractGuard.Proofs.Syntax.Layout
import ContractGuard.Proofs.Syntax.Spans

/-!
# Reading further down

A reader never looks at a position: it only writes positions into the spans of what it reads.
So reading the same text further down gives the same trees, and their spans are as much
further down. The declarations that were finished before stay as they are.
-/

namespace ContractGuard

variable (k : Nat)

def Position.shift (p : Position) : Position := ⟨p.line + k, p.column⟩

def Extent.shift (e : Extent) : Extent := ⟨e.start.shift k, e.stop.shift k⟩

def Token.shift (t : Token) : Token := ⟨t.lexeme, t.start.shift k, t.stop.shift k⟩

def NumeralError.shift (e : NumeralError) : NumeralError := ⟨e.fault, e.span.shift k⟩

def Operand.shift (o : Operand) : Operand := ⟨o.expr.mapSpans (Span.shift k), o.extent.shift k⟩

def Waiting.shift (w : Waiting) : Waiting := ⟨w.left.shift k, w.op⟩

def Level.shift (l : Level) : Level :=
  ⟨l.sum.map (Waiting.shift k), l.product.map (Waiting.shift k)⟩

def Opening.shift : Opening → Opening
  | group start => group (start.shift k)
  | conversion start target => conversion (start.shift k) target

def Frame.shift (f : Frame) : Frame := ⟨f.level.shift k, f.opening.shift k⟩

def Focus.shift : Focus → Focus
  | .start => .start
  | .sign position => .sign (position.shift k)
  | .name cs extent => .name cs (extent.shift k)
  | .operand o => .operand (o.shift k)

def Pending.shift (p : Pending) : Pending :=
  ⟨p.level.shift k, p.frames.map (Frame.shift k), p.focus.shift k,
    p.fault.map (NumeralError.shift k)⟩

def Progress.shift : Progress → Progress
  | more p => more (p.shift k)
  | done o fault => done (o.shift k) (fault.map (NumeralError.shift k))

def Heading.shift (h : Heading) : Heading := ⟨h.attributes, h.start.map (Position.shift k)⟩

def Signature.shift (s : Signature) : Signature :=
  { s with start := s.start.shift k, params := s.params.map (Param.mapSpans (Span.shift k)) }

def Body.shift (b : Body) : Body :=
  ⟨b.signature.shift k, b.stmts.map (Stmt.mapSpans (Span.shift k))⟩

def Mode.shift : Mode → Mode
  | top h => top (h.shift k)
  | attributeName h => attributeName (h.shift k)
  | functionName h start => functionName (h.shift k) (start.shift k)
  | paramsOpen s => paramsOpen (s.shift k)
  | firstParam s => firstParam (s.shift k)
  | nextParam s => nextParam (s.shift k)
  | paramColon s name start => paramColon (s.shift k) name (start.shift k)
  | paramType s name start => paramType (s.shift k) name (start.shift k)
  | paramEnd s => paramEnd (s.shift k)
  | result s => result (s.shift k)
  | resultType s => resultType (s.shift k)
  | bodyOpen s => bodyOpen (s.shift k)
  | stmt b => stmt (b.shift k)
  | bindName b start => bindName (b.shift k) (start.shift k)
  | bindEquals b start name => bindEquals (b.shift k) (start.shift k) name
  | retValue b start => retValue (b.shift k) (start.shift k)
  | expr b start purpose p => expr (b.shift k) (start.shift k) purpose (p.shift k)

variable {k} {file : Option String} {p : Pending} {o : Operand} {t : Token}
  {r r' : Reader} {decls : List FunctionDecl}

@[simp] theorem Token.lexeme_shift (t : Token) : (t.shift k).lexeme = t.lexeme := rfl

@[simp] theorem Token.stop_shift (t : Token) : (t.shift k).stop = t.stop.shift k := rfl

namespace Level

theorem closeProduct_shift (l : Level) (o : Operand) :
    (l.shift k).closeProduct file (o.shift k) = (l.closeProduct file o).shift k := by
  obtain ⟨sum, _ | w⟩ := l <;> rfl

theorem close_shift (l : Level) (o : Operand) :
    (l.shift k).close file (o.shift k) = (l.close file o).shift k := by
  obtain ⟨_ | w, product⟩ := l
  · exact closeProduct_shift _ o
  · exact congrArg ((w.shift k).close file) (closeProduct_shift ⟨some w, product⟩ o)

theorem push_shift (l : Level) (op : ArithOp) (o : Operand) :
    (l.shift k).push file op (o.shift k) = (l.push file op o).shift k := by
  cases op <;> simp only [push, close_shift, closeProduct_shift] <;> rfl

end Level

theorem Opening.close_shift (opening : Opening) (o : Operand) (stop : Position) :
    (opening.shift k).close file (o.shift k) (stop.shift k) =
      (opening.close file o stop).shift k := by
  cases opening <;> rfl

namespace Pending

theorem constant_shift (p : Pending) (c : Except NumeralFault Constant) (extent : Extent) :
    (p.shift k).constant file c (extent.shift k) = (p.constant file c extent).shift k := by
  obtain ⟨level, frames, focus, _ | e⟩ := p <;> cases c <;> rfl

theorem operator_shift (p : Pending) (op : ArithOp) (o : Operand) :
    (p.shift k).operator file op (o.shift k) = (p.operator file op o).shift k := by
  simp only [operator, shift, Level.push_shift]
  rfl

theorem expecting_shift (p : Pending) : (p.shift k).expecting = p.expecting := by
  obtain ⟨level, frames, focus, fault⟩ := p
  cases focus <;> rfl

theorem more_shift {q : Pending} (h : q = p.shift k) :
    (.ok (.more q) : Except SyntaxFault Progress) = .ok (Progress.shift k (.more p)) := by
  rw [h]
  rfl

theorem stepStart_shift {g : Progress} (h : p.stepStart file t = .ok g) :
    (p.shift k).stepStart file (t.shift k) = .ok (g.shift k) := by
  obtain ⟨lexeme, start, stop⟩ := t
  cases lexeme with
  | word cs =>
    obtain rfl := Except.ok.inj h
    rfl
  | integer digits | decimal whole fraction | hex digits =>
    obtain rfl := Except.ok.inj h
    exact more_shift (constant_shift p _ ⟨start, stop⟩)
  | symbol s =>
    cases s with
    | minus | lparen =>
      obtain rfl := Except.ok.inj h
      rfl
    | _ => cases h

theorem stepSign_shift {g : Progress} {start : Position} (h : p.stepSign file start t = .ok g) :
    (p.shift k).stepSign file (start.shift k) (t.shift k) = .ok (g.shift k) := by
  obtain ⟨lexeme, tokenStart, stop⟩ := t
  cases lexeme with
  | integer digits | decimal whole fraction =>
    obtain rfl := Except.ok.inj h
    exact more_shift (constant_shift p _ ⟨start, stop⟩)
  | _ => cases h

theorem stepOperand_shift {g : Progress} (h : p.stepOperand file o t = .ok g) :
    (p.shift k).stepOperand file (o.shift k) (t.shift k) = .ok (g.shift k) := by
  obtain ⟨lexeme, start, stop⟩ := t
  obtain ⟨level, frames, focus, fault⟩ := p
  cases lexeme with
  | symbol s =>
    cases s with
    | plus | minus | star | slash =>
      obtain rfl := Except.ok.inj h
      exact more_shift (operator_shift _ _ o)
    | rparen =>
      cases frames with
      | nil => cases h
      | cons frame frames =>
        obtain rfl := Except.ok.inj h
        have hinner : (frame.opening.shift k).close file ((level.shift k).close file (o.shift k))
            (stop.shift k) = (frame.opening.close file (level.close file o) stop).shift k := by
          rw [Level.close_shift, Opening.close_shift]
        exact more_shift (congrArg (fun inner => Pending.mk (frame.level.shift k)
          (frames.map (Frame.shift k)) (.operand inner) (fault.map (NumeralError.shift k))) hinner)
    | semicolon =>
      cases frames with
      | nil =>
        obtain rfl := Except.ok.inj h
        rw [Progress.shift, ← Level.close_shift]
        rfl
      | cons frame frames => cases h
    | _ => cases h
  | _ => cases h

theorem step_shift {g : Progress} (h : p.step file t = .ok g) :
    (p.shift k).step file (t.shift k) = .ok (g.shift k) := by
  obtain ⟨level, frames, focus, fault⟩ := p
  cases focus with
  | start => exact stepStart_shift h
  | sign start => exact stepSign_shift h
  | operand o => exact stepOperand_shift h
  | name cs extent =>
    let p : Pending := ⟨level, frames, .name cs extent, fault⟩
    have hname : (p.shift k).focus = .name cs (extent.shift k) := rfl
    by_cases hl : t.lexeme = .symbol .lparen
    · rw [step_name rfl hl] at h
      obtain rfl := Except.ok.inj h
      exact step_name hname hl
    · rw [step_of_operand rfl hl] at h
      have hl' : (t.shift k).lexeme ≠ .symbol .lparen := hl
      have hoperand : (p.shift k).focus.operand? file =
          some ((⟨.name (String.ofList cs) (extent.span file), extent⟩ : Operand).shift k) := rfl
      exact (step_of_operand hoperand hl').trans (stepOperand_shift h)

end Pending

theorem Purpose.stmt_shift (purpose : Purpose) (value : Expr) (span : Span) :
    purpose.stmt (value.mapSpans (Span.shift k)) (span.shift k) =
      (purpose.stmt value span).mapSpans (Span.shift k) := by
  cases purpose <;> rfl

theorem Body.add_shift (b : Body) (s : Stmt) :
    (b.shift k).add (s.mapSpans (Span.shift k)) = (b.add s).shift k := by
  simp [shift, add]

theorem Body.decl_shift (b : Body) (stop : Position) :
    (b.shift k).decl file (stop.shift k) = (b.decl file stop).mapSpans (Span.shift k) := rfl

theorem Mode.expecting_shift (m : Mode) : (m.shift k).expecting = m.expecting := by
  cases m with
  | expr b start purpose p => exact p.expecting_shift
  | _ => rfl

theorem Signature.addParam_shift (s : Signature) (name ty : String) (span : Span) :
    ({ s.shift k with params := (s.shift k).params ++ [⟨name, ty, span.shift k⟩] } : Signature) =
      Signature.shift k { s with params := s.params ++ [⟨name, ty, span⟩] } := by
  simp [Signature.shift, Param.mapSpans]

theorem Position.step_shift (p : Position) (c : Char) :
    (p.shift k).step c = (p.step c).shift k := by
  simp only [step, shift]
  split
  · rw [Nat.add_right_comm]
  · rfl

theorem Position.after_shift (p : Position) (cs : List Char) :
    (p.shift k).after cs = (p.after cs).shift k := by
  induction cs generalizing p with
  | nil => rfl
  | cons c cs ih => exact (congrArg (·.after cs) (p.step_shift c)).trans (ih _)

theorem Lexeme.skipLayout_shift (p : Position) (inComment : Bool) (cs : List Char) :
    skipLayout (p.shift k) inComment cs =
      ((skipLayout p inComment cs).1.shift k, (skipLayout p inComment cs).2) := by
  fun_induction skipLayout p inComment cs <;> simp_all [skipLayout, Position.step_shift]

namespace Reader

/-- The second reader is as far as the first, on a text that much further down, and has other
declarations before its own. -/
structure Lower (k : Nat) (decls : List FunctionDecl) (r r' : Reader) : Prop where
  functions : r'.functions = decls ++ r.functions.map (FunctionDecl.mapSpans (Span.shift k))
  fault : r'.fault = r.fault.map (NumeralError.shift k)
  mode : r'.mode = r.mode.shift k

def Follows (k : Nat) (decls : List FunctionDecl) (x y : Except SyntaxFault Reader) : Prop :=
  ∀ r, x = .ok r → ∃ r', y = .ok r' ∧ Lower k decls r r'

theorem Follows.ite {c c' : Prop} [Decidable c] [Decidable c']
    {x x' y y' : Except SyntaxFault Reader} (hc : c ↔ c') (h : Follows k decls x y)
    (h' : Follows k decls x' y') :
    Follows k decls (if c then x else x') (if c' then y else y') := by
  by_cases hc' : c'
  · rwa [if_pos (hc.mpr hc'), if_pos hc']
  · rwa [if_neg (mt hc.mp hc'), if_neg hc']

variable {start : Position} {purpose : Purpose} {m m' : Mode} {next next' : String → Mode}
  {sym : Symbol}

theorem Lower.goto (h : Lower k decls r r') (m : Mode) :
    Lower k decls { r with mode := m } { r' with mode := m.shift k } :=
  ⟨h.functions, h.fault, rfl⟩

theorem Lower.goto_name (h : Lower k decls r r')
    (hnext : ∀ name, next' name = (next name).shift k) :
    Follows k decls (r.goto (Mode.name t next)) (r'.goto (Mode.name (t.shift k) next')) := by
  intro r₁ hgoto
  obtain ⟨cs, hl, rfl⟩ := goto_name_eq_ok.mp hgoto
  refine ⟨_, goto_name_eq_ok.mpr ⟨cs, hl, rfl⟩, ?_⟩
  rw [hnext]
  exact h.goto _

theorem Lower.goto_symbol (h : Lower k decls r r') (m : Mode) :
    Follows k decls (r.goto (Mode.symbol sym t m))
      (r'.goto (Mode.symbol sym (t.shift k) (m.shift k))) := by
  intro r₁ hgoto
  obtain ⟨hl, rfl⟩ := goto_symbol_eq_ok.mp hgoto
  exact ⟨_, goto_symbol_eq_ok.mpr ⟨hl, rfl⟩, h.goto m⟩

theorem Lower.goto_ok (h : Lower k decls r r') (hm : m' = m.shift k) :
    Follows k decls (r.goto (.ok m)) (r'.goto (.ok m')) := by
  intro r₁ hgoto
  obtain ⟨_, hok, rfl⟩ := goto_eq_ok.mp hgoto
  obtain rfl := Except.ok.inj hok
  exact ⟨_, goto_eq_ok.mpr ⟨_, rfl, rfl⟩, hm ▸ h.goto m⟩

theorem Lower.stepExpr (h : Lower k decls r r') (b : Body) (start : Position) (purpose : Purpose)
    (p : Pending) (t : Token) :
    Follows k decls (r.stepExpr file b start purpose p t)
      (r'.stepExpr file (b.shift k) (start.shift k) purpose (p.shift k) (t.shift k)) := by
  intro r₁ hstep
  rcases stepExpr_eq_ok.mp hstep with ⟨p', hmore, rfl⟩ | ⟨o, fault, hdone, rfl⟩
  · exact ⟨_, stepExpr_eq_ok.mpr (.inl ⟨_, Pending.step_shift hmore, rfl⟩), h.goto _⟩
  · refine ⟨_, stepExpr_eq_ok.mpr (.inr ⟨_, _, Pending.step_shift hdone, rfl⟩), h.functions, ?_, ?_⟩
    · rw [h.fault]
      cases r.fault <;> rfl
    · show Mode.stmt _ = Mode.stmt _
      rw [← Body.add_shift, ← Purpose.stmt_shift]
      rfl

theorem Lower.stepStmt (h : Lower k decls r r') (b : Body) (t : Token) :
    Follows k decls (r.stepStmt file b t) (r'.stepStmt file (b.shift k) (t.shift k)) := by
  simp only [Reader.stepStmt, Token.lexeme_shift]
  intro r₁ hstep
  split at hstep
  · obtain rfl := Except.ok.inj hstep
    refine ⟨_, rfl, ?_, h.fault, rfl⟩
    simp [h.functions, Body.decl_shift]
  · obtain rfl := Except.ok.inj hstep
    exact ⟨_, rfl, h.goto (.bindName b t.start)⟩
  · obtain rfl := Except.ok.inj hstep
    exact ⟨_, rfl, h.goto (.retValue b t.start)⟩
  · exact h.stepExpr b t.start .eval {} t r₁ hstep

theorem Lower.stepTop (h : Lower k decls r r') {heading : Heading} (hm : r.mode = .top heading)
    (t : Token) : Follows k decls (r.stepMode file t) (r'.stepMode file (t.shift k)) := by
  have hm' : r'.mode = .top (heading.shift k) := by rw [h.mode, hm]; rfl
  simp only [stepMode, hm, hm', Token.lexeme_shift]
  intro r₁ hstep
  split at hstep
  · obtain ⟨attributes, _ | start⟩ := heading <;> exact h.goto_ok rfl r₁ hstep
  · obtain ⟨attributes, _ | start⟩ := heading <;> exact h.goto_ok rfl r₁ hstep
  · cases hstep

theorem Lower.stepMode (h : Lower k decls r r') (t : Token) :
    Follows k decls (r.stepMode file t) (r'.stepMode file (t.shift k)) := by
  have hm' := h.mode
  generalize hm : r.mode = mode at hm'
  cases mode with
  | top heading => exact h.stepTop hm t
  | attributeName heading | functionName heading start | nextParam s | resultType s
  | bindName b start =>
    simp only [Reader.stepMode, hm, hm', Mode.shift]
    exact h.goto_name fun _ => rfl
  | paramType s name start =>
    simp only [Reader.stepMode, hm, hm', Mode.shift]
    refine h.goto_name fun ty => congrArg Mode.paramEnd ?_
    exact s.addParam_shift name ty ((⟨start, t.stop⟩ : Extent).span file)
  | paramsOpen s | paramColon s name start | bodyOpen s | bindEquals b start name =>
    simp only [Reader.stepMode, hm, hm', Mode.shift]
    exact h.goto_symbol _
  | firstParam s =>
    simp only [Reader.stepMode, hm, hm', Mode.shift]
    exact (h.goto_ok rfl).ite Iff.rfl (h.goto_name fun _ => rfl)
  | paramEnd s | result s =>
    simp only [Reader.stepMode, hm, hm', Mode.shift]
    exact (h.goto_ok rfl).ite Iff.rfl (h.goto_symbol _)
  | stmt b =>
    simp only [Reader.stepMode, hm, hm', Mode.shift]
    exact h.stepStmt b t
  | retValue b start =>
    simp only [Reader.stepMode, hm, hm', Mode.shift]
    have hadd := b.add_shift (k := k) (.ret none ((⟨start, t.stop⟩ : Extent).span file))
    exact (h.goto_ok (congrArg Mode.stmt hadd)).ite Iff.rfl (h.stepExpr b start .ret {} t)
  | expr b start purpose p =>
    simp only [Reader.stepMode, hm, hm', Mode.shift]
    exact h.stepExpr b start purpose p t

theorem Lower.step (h : Lower k decls r r') (t : Token) :
    Follows k decls (r.step file t) (r'.step file (t.shift k)) := by
  intro r₁ hstep
  obtain ⟨r₃, hmode, rfl⟩ := step_eq_ok.mp hstep
  obtain ⟨r₄, hmode', hlower⟩ := h.stepMode t r₃ hmode
  exact ⟨_, step_eq_ok.mpr ⟨r₄, hmode', rfl⟩, hlower.functions, hlower.fault, hlower.mode⟩

theorem Lower.run (h : Lower k decls r r') (p : Position) (cs : List Char) :
    Follows k decls (r.run file p cs) (r'.run file (p.shift k) cs) := by
  intro r₁ hrun
  fun_induction Reader.run file r p cs generalizing r' with
  | case1 r p cs start hskip =>
    obtain rfl := Except.ok.inj hrun
    have hskip' := Lexeme.skipLayout_shift (k := k) p false cs
    rw [hskip] at hskip'
    exact ⟨r', run_end hskip', h⟩
  | case2 => cases hrun
  | case3 r p cs start c rest hskip l after hread stop r₃ hstep =>
    rename_i ih
    have hskip' := Lexeme.skipLayout_shift (k := k) p false cs
    rw [hskip] at hskip'
    obtain ⟨r₄, hstep', hlower⟩ := h.step ⟨l, start, stop⟩ r₃ hstep
    obtain ⟨r₂, hrun', hlower⟩ := ih hlower hrun
    rw [← Position.after_shift] at hrun'
    have hread' : Lexeme.read? r'.mode.expecting c rest = some (l, after) := by
      rw [h.mode, Mode.expecting_shift, hread]
    refine ⟨r₂, (run_eq_ok_of_read hskip' hread').mpr ⟨r₄, ?_, hrun'⟩, hlower⟩
    rw [Position.after_shift]
    exact hstep'
  | case4 => cases hrun

end Reader

end ContractGuard
