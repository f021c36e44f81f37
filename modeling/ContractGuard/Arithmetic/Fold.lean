import ContractGuard.Code.Node
import ContractGuard.Decimal.Arithmetic
import ContractGuard.Payload.Reading

/-!
# Folding constants

Integers fold exactly, with division toward zero. Fixed-point sums and differences
fold exactly as well; products and quotients are cut toward zero at the last place
of the type.
-/

namespace ContractGuard.ArithOp

def foldInt (op : ArithOp) (x y : Int) : Except Fault Int :=
  match op with
  | add => .ok (x + y)
  | sub => .ok (x - y)
  | mul => .ok (x * y)
  | div => if y = 0 then .error (.misuse .integerDivisionByZero) else .ok (x.tdiv y)

def foldDecimal (op : ArithOp) (scale : Int) (x y : Decimal) : Except Signal Decimal :=
  match op with
  | add => x.add .wide y
  | sub => x.sub .wide y
  | mul => do
    let place ← Context.wide.placeOf scale
    Context.wide.quantize .towardZero (← x.mul .wide y) place
  | div => do
    let place ← Context.wide.placeOf scale
    Context.wide.quantize .towardZero (← x.div .wide y) place

def fold (op : ArithOp) (ty : ScalarType) (a b : Payload) : Except Fault Payload := do
  match ty.kind with
  | .decimal =>
    let x ← a.toDecimal
    let y ← b.toDecimal
    return .decimal (← Fault.ofSignal (op.foldDecimal ty.scale x y))
  | _ =>
    let x ← a.toInt
    let y ← b.toInt
    return .int (← op.foldInt x y)

end ContractGuard.ArithOp
