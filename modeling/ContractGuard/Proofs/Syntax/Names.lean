import ContractGuard.Syntax.Declaration

/-!
# Trees with other names

The local names of a declaration are those of its parameters, of its bindings and of its name
expressions. A renaming replaces them and nothing else: types, conversion targets and the name
of the function are no local names, even if they are spelled like one.
-/

namespace ContractGuard

namespace Expr

def names : Expr → List String
  | name ident _ => [ident]
  | binary _ left right _ => left.names ++ right.names
  | conversion _ arg _ => arg.names
  | _ => []

def rename (f : String → String) : Expr → Expr
  | name ident span => name (f ident) span
  | binary op left right span => binary op (left.rename f) (right.rename f) span
  | conversion target arg span => conversion target (arg.rename f) span
  | e => e

end Expr

namespace Stmt

def names : Stmt → List String
  | bind name value _ => name :: value.names
  | ret value _ => value.elim [] Expr.names
  | eval value _ => value.names
  | unsupported _ => []

def rename (f : String → String) : Stmt → Stmt
  | bind name value span => bind (f name) (value.rename f) span
  | ret value span => ret (value.map (Expr.rename f)) span
  | eval value span => eval (value.rename f) span
  | unsupported span => unsupported span

end Stmt

def Param.rename (f : String → String) (p : Param) : Param := { p with name := f p.name }

namespace FunctionDecl

def localNames (d : FunctionDecl) : List String :=
  d.params.map Param.name ++ d.body.flatMap Stmt.names

def rename (f : String → String) (d : FunctionDecl) : FunctionDecl :=
  { d with params := d.params.map (Param.rename f), body := d.body.map (Stmt.rename f) }

end FunctionDecl

end ContractGuard
