import ContractGuard.Arithmetic.Fold
import ContractGuard.Conversion.Convert

/-!
# Guarded arithmetic

Both operands have one numeric type, and there is no way around the checks: the
raw operation is always followed by a clamp, and a divisor is always checked for
zero. Two literals are also folded, so that a result out of range is found early.
-/

namespace ContractGuard

namespace ArithOp

/-- The folded result of two literals has to lie in the range of the type. -/
def foldInRange (op : ArithOp) (left right : TypedValue) (span : Span) :
    Except Fault (Option Payload) := do
  if left.isLiteral && right.isLiteral then
    let result ← op.fold left.ty left.value right.value
    requireInBounds left.ty result span (.overflowAtCompileTime op.name left.ty.name result)
    return some result
  else return none

/-- Everything that can refuse the operation but an unknown type of run-time
operands; the result is the folded payload of two literals. -/
def plan (op : ArithOp) (left right : TypedValue) (span : Span) :
    Except Fault (Option Payload) := do
  Fault.require (left.ty = right.ty) span
    (.typeMismatch left.ty.name right.ty.name (some op.name))
  Fault.require left.ty.isNumeric span (.nonNumericOperand op.name left.ty.name)
  left.requireLegal span
  right.requireLegal span
  Fault.require (!(op = .div && right.isLiteral && right.value.isZero)) span .divisionByZero
  op.foldInRange left right span

def emit (op : ArithOp) (left right : TypedValue) (folded : Option Payload) :
    Emit TypedValue := do
  let lhs ← Emit.materialize left
  let rhs ← Emit.materialize right
  if op = .div then Emit.node (.zeroCheck rhs left.ty .divisionByZero)
  let raw ← Emit.newValue
  Emit.node (.binary raw op lhs rhs left.ty)
  let dest ← Emit.clamp raw left.ty
  match folded with
  | some payload => return ⟨left.ty, payload, true, some dest⟩
  | none => return .runtime left.ty dest

end ArithOp

def guard (op : OperatorName) (left right : TypedValue) (span : Span) : Emit TypedValue := do
  let op ← Emit.ofExcept op.resolve
  let folded ← Emit.ofExcept (op.plan left right span)
  op.emit left right folded

end ContractGuard
