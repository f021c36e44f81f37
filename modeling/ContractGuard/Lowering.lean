import ContractGuard.Arithmetic.Guard
import ContractGuard.Syntax.Declaration

/-!
# Lowering a declaration

Parameters are loaded, conversions and operations go through their guards, and every
path ends in a return. A local is the typed value that it is bound to, so a literal
stays bare until something needs its id. The first fault in evaluation order ends
the function.
-/

namespace ContractGuard

abbrev Locals := List (String × TypedValue)

namespace Lowering

def typeNamed (name : String) (span : Span) : Except Fault ScalarType :=
  match ScalarType.find? name with
  | some ty => .ok ty
  | none => Fault.blame span (.unknownTypeName name)

def requireFresh (locals : Locals) (name : String) (span : Span) : Except Fault Unit :=
  Fault.require (locals.lookup name).isNone span (.duplicateName name)

def expr (r : Registry) (locals : Locals) : Expr → Emit TypedValue
  | .literal value (some ty) _ => return .literal ty value
  | .literal _ none _ => throw (.misuse .untyped)
  | .name ident span =>
    match locals.lookup ident with
    | some value => return value
    | none => Emit.ofExcept (Fault.blame span (.unknownName ident))
  | .conversion target arg span => do
    let value ← expr r locals arg
    r.convert value target span
  | .binary op left right span => do
    let lhs ← expr r locals left
    let rhs ← expr r locals right
    guard op lhs rhs span
  | .unsupported _ => throw (.misuse .unsupportedExpression)

/-- A function with a result type has to return a value. -/
def requireNoResult (result : Option ScalarType) (span : Span) : Except Fault Unit :=
  match result with
  | some ty => Fault.blame span (.typeMismatch "void" ty.name (some "return"))
  | none => .ok ()

def requireResult (result : Option ScalarType) (value : TypedValue) (span : Span) :
    Except Fault Unit :=
  match result with
  | some ty =>
    Fault.require (value.ty = ty) span (.typeMismatch value.ty.name ty.name (some "return"))
  | none => .ok ()

/-- A returned value has the result type; a bare literal is checked here, where it
first becomes a constant. -/
def requireReturnable (result : Option ScalarType) (value : TypedValue) (span : Span) :
    Except Fault Unit := do
  requireResult result value span
  if value.operand.isNone then value.requireLegal span

def stmt (r : Registry) (result : Option ScalarType) (locals : Locals) : Stmt → Emit Locals
  | .bind name value span => do
    Emit.ofExcept (requireFresh locals name span)
    let value ← expr r locals value
    return (name, value) :: locals
  | .eval value _ => do
    let _ ← expr r locals value
    return locals
  | .ret none span => do
    Emit.ofExcept (requireNoResult result span)
    Emit.node (.ret none)
    return locals
  | .ret (some value) span => do
    let value ← expr r locals value
    Emit.ofExcept (requireReturnable result value span)
    let operand ← Emit.materialize value
    Emit.node (.ret (some operand))
    return locals
  | .unsupported _ => throw (.misuse .unsupportedStatement)

def param (locals : Locals) (p : Param) : Emit Locals := do
  let ty ← Emit.ofExcept (typeNamed p.typeName p.span)
  Emit.ofExcept (requireFresh locals p.name p.span)
  let dest ← Emit.newValue
  Emit.node (.loadParam dest p.name ty)
  return (p.name, .runtime ty dest) :: locals

def endsInReturn (b : Buffer) : Bool := b.nodes.getLast?.any Node.isReturn

/-- A body that does not end in a return gets one without a value. -/
def close (result : Option ScalarType) (span : Span) : Emit Unit := do
  if !endsInReturn (← get) then
    Emit.ofExcept (requireNoResult result span)
    Emit.node (.ret none)

def resultType (decl : FunctionDecl) : Except Fault (Option ScalarType) :=
  match decl.returnType with
  | none => return none
  | some name => return some (← typeNamed name decl.span)

def function (r : Registry) (decl : FunctionDecl) : Emit Unit := do
  let result ← Emit.ofExcept (resultType decl)
  let locals ← decl.params.foldlM param []
  let _ ← decl.body.foldlM (stmt r result) locals
  close result decl.span

end Lowering

/-- Attributes play no part here. -/
def FunctionDecl.lower (decl : FunctionDecl) (r : Registry) : Except Fault CompiledFunction :=
  match (Lowering.function r decl).run { name := decl.name } with
  | (.ok (), buffer) => .ok buffer.finish
  | (.error e, _) => .error e

end ContractGuard
