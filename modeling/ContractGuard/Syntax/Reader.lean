import ContractGuard.Syntax.Expression

/-!
# Reading declarations

The reader is a machine over tokens whose state also tells the lexer what can come
next. The first token without a transition is the syntax fault. Numerals without a
value are reported only for a text that has no syntax fault.
-/

namespace ContractGuard

structure Heading where
  attributes : List RawAttribute := []
  start : Option Position := none
deriving DecidableEq

structure Signature where
  start : Position
  attributes : List RawAttribute
  name : String
  params : List Param := []
  returnType : Option String := none
deriving DecidableEq

structure Body where
  signature : Signature
  stmts : List Stmt := []
deriving DecidableEq

inductive Purpose where
  | bind (name : String)
  | ret
  | eval
deriving DecidableEq

inductive Mode where
  | top (h : Heading)
  | attributeName (h : Heading)
  | functionName (h : Heading) (start : Position)
  | paramsOpen (s : Signature)
  | firstParam (s : Signature)
  | nextParam (s : Signature)
  | paramColon (s : Signature) (name : String) (start : Position)
  | paramType (s : Signature) (name : String) (start : Position)
  | paramEnd (s : Signature)
  | result (s : Signature)
  | resultType (s : Signature)
  | bodyOpen (s : Signature)
  | stmt (b : Body)
  | bindName (b : Body) (start : Position)
  | bindEquals (b : Body) (start : Position) (name : String)
  | retValue (b : Body) (start : Position)
  | expr (b : Body) (start : Position) (purpose : Purpose) (p : Pending)
deriving DecidableEq

structure Reader where
  functions : List FunctionDecl := []
  fault : Option NumeralError := none
  last : Position := .first
  mode : Mode := .top {}
deriving DecidableEq

def Purpose.stmt (purpose : Purpose) (value : Expr) (span : Span) : Stmt :=
  match purpose with
  | bind name => .bind name value span
  | ret => .ret (some value) span
  | eval => .eval value span

def Body.add (b : Body) (s : Stmt) : Body := { b with stmts := b.stmts ++ [s] }

def Body.decl (file : Option String) (b : Body) (stop : Position) : FunctionDecl :=
  let s := b.signature
  ⟨s.name, s.attributes, s.params, s.returnType, b.stmts,
    (⟨s.start, stop⟩ : Extent).span file⟩

namespace Mode

def expecting : Mode → Expecting
  | top _ => .declaration
  | stmt _ => .sign
  | retValue .. => .sign
  | expr _ _ _ p => p.expecting
  | _ => .other

/-- The next mode of a reader that neither ends a declaration nor meets a numeral
without a value; `name` accepts any word. -/
def name (t : Token) (next : String → Mode) : Except SyntaxFault Mode :=
  match t.lexeme with
  | .word cs => .ok (next (String.ofList cs))
  | _ => t.unexpected

def symbol (s : Symbol) (t : Token) (next : Mode) : Except SyntaxFault Mode :=
  if t.lexeme = .symbol s then .ok next else t.unexpected

end Mode

namespace Reader

def goto (r : Reader) (m : Except SyntaxFault Mode) : Except SyntaxFault Reader :=
  return { r with mode := ← m }

def stepExpr (file : Option String) (r : Reader) (b : Body) (start : Position)
    (purpose : Purpose) (p : Pending) (t : Token) : Except SyntaxFault Reader := do
  match ← p.step file t with
  | .more p => return { r with mode := .expr b start purpose p }
  | .done o fault =>
    let stmt := purpose.stmt o.expr ((⟨start, t.stop⟩ : Extent).span file)
    return { r with fault := r.fault <|> fault, mode := .stmt (b.add stmt) }

def stepStmt (file : Option String) (r : Reader) (b : Body) (t : Token) :
    Except SyntaxFault Reader :=
  match t.lexeme with
  | .symbol .rbrace =>
    .ok { r with functions := r.functions ++ [b.decl file t.stop], mode := .top {} }
  | .word ['l', 'e', 't'] => .ok { r with mode := .bindName b t.start }
  | .word ['r', 'e', 't', 'u', 'r', 'n'] => .ok { r with mode := .retValue b t.start }
  | _ => r.stepExpr file b t.start .eval {} t

def stepMode (file : Option String) (r : Reader) (t : Token) : Except SyntaxFault Reader :=
  match r.mode with
  | .top h =>
    match t.lexeme with
    | .symbol .at =>
      r.goto (.ok (.attributeName { h with start := h.start <|> some t.start }))
    | .word ['f', 'n'] => r.goto (.ok (.functionName h (h.start.getD t.start)))
    | _ => t.unexpected
  | .attributeName h =>
    r.goto (Mode.name t fun name => .top { h with attributes := h.attributes ++ [.text name] })
  | .functionName h start =>
    r.goto (Mode.name t fun name => .paramsOpen { start, attributes := h.attributes, name })
  | .paramsOpen s => r.goto (Mode.symbol .lparen t (.firstParam s))
  | .firstParam s =>
    if t.lexeme = .symbol .rparen then r.goto (.ok (.result s))
    else r.goto (Mode.name t fun name => .paramColon s name t.start)
  | .nextParam s => r.goto (Mode.name t fun name => .paramColon s name t.start)
  | .paramColon s name start => r.goto (Mode.symbol .colon t (.paramType s name start))
  | .paramType s name start =>
    r.goto (Mode.name t fun typeName =>
      .paramEnd { s with
        params := s.params ++ [⟨name, typeName, (⟨start, t.stop⟩ : Extent).span file⟩] })
  | .paramEnd s =>
    if t.lexeme = .symbol .comma then r.goto (.ok (.nextParam s))
    else r.goto (Mode.symbol .rparen t (.result s))
  | .result s =>
    if t.lexeme = .symbol .arrow then r.goto (.ok (.resultType s))
    else r.goto (Mode.symbol .lbrace t (.stmt { signature := s }))
  | .resultType s =>
    r.goto (Mode.name t fun name => .bodyOpen { s with returnType := some name })
  | .bodyOpen s => r.goto (Mode.symbol .lbrace t (.stmt { signature := s }))
  | .stmt b => r.stepStmt file b t
  | .bindName b start => r.goto (Mode.name t fun name => .bindEquals b start name)
  | .bindEquals b start name =>
    r.goto (Mode.symbol .equals t (.expr b start (.bind name) {}))
  | .retValue b start =>
    if t.lexeme = .symbol .semicolon then
      r.goto (.ok (.stmt (b.add (.ret none ((⟨start, t.stop⟩ : Extent).span file)))))
    else r.stepExpr file b start .ret {} t
  | .expr b start purpose p => r.stepExpr file b start purpose p t

def step (file : Option String) (r : Reader) (t : Token) : Except SyntaxFault Reader :=
  return { ← r.stepMode file t with last := t.start }

def finish (r : Reader) : Except SyntaxFault (List FunctionDecl) :=
  if r.mode = .top {} then .ok r.functions
  else .error (.unexpected "$END" [] r.last)

end Reader

end ContractGuard
