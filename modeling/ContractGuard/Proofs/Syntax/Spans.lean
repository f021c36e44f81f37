import ContractGuard.Syntax.Declaration

/-!
# Trees with other spans

A declaration whose nodes keep everything but their spans: each span is replaced by what a
function makes of it. Spans that move down a number of lines are the case that texts put one
below the other need.
-/

namespace ContractGuard

/-- The place that many lines further down; what is unknown stays so. -/
def Span.shift (k : Nat) (s : Span) : Span :=
  { s with line := s.line.map (· + k), endLine := s.endLine.map (· + k) }

variable (f : Span → Span)

def Expr.mapSpans : Expr → Expr
  | literal value ty span => literal value ty (f span)
  | name ident span => name ident (f span)
  | binary op left right span => binary op left.mapSpans right.mapSpans (f span)
  | conversion target arg span => conversion target arg.mapSpans (f span)
  | unsupported span => unsupported (f span)

def Stmt.mapSpans : Stmt → Stmt
  | bind name value span => bind name (value.mapSpans f) (f span)
  | ret value span => ret (value.map (Expr.mapSpans f)) (f span)
  | eval value span => eval (value.mapSpans f) (f span)
  | unsupported span => unsupported (f span)

def Param.mapSpans (p : Param) : Param := { p with span := f p.span }

def FunctionDecl.mapSpans (d : FunctionDecl) : FunctionDecl :=
  { d with
    params := d.params.map (Param.mapSpans f)
    body := d.body.map (Stmt.mapSpans f)
    span := f d.span }

end ContractGuard
