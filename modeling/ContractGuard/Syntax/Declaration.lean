import ContractGuard.Attribute
import ContractGuard.Code.Node

/-!
# Declarations

A function declaration as the safety passes see it: literals carry their type,
names have none yet.
-/

namespace ContractGuard

inductive Expr where
  /-- A literal without a type has no meaning, though a tree may hold one. -/
  | literal (value : Payload) (ty : Option ScalarType) (span : Span)
  | name (ident : String) (span : Span)
  | binary (op : OperatorName) (left right : Expr) (span : Span)
  | conversion (target : String) (arg : Expr) (span : Span)
  | unsupported (span : Span)
deriving DecidableEq

def Expr.span : Expr → Span
  | literal _ _ span | name _ span | binary _ _ _ span | conversion _ _ span
  | unsupported span => span

inductive Stmt where
  | bind (name : String) (value : Expr) (span : Span)
  | ret (value : Option Expr) (span : Span)
  | eval (value : Expr) (span : Span)
  | unsupported (span : Span)
deriving DecidableEq

def Stmt.span : Stmt → Span
  | bind _ _ span | ret _ span | eval _ span | unsupported span => span

structure Param where
  name : String
  typeName : String
  span : Span
deriving DecidableEq

structure FunctionDecl where
  name : String
  attributes : List RawAttribute
  params : List Param
  returnType : Option String
  body : List Stmt
  span : Span
deriving DecidableEq

end ContractGuard
