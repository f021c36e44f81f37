import ContractGuard.Scalar.Table

/-!
# Typed values

A value on its way through a function. A literal carries its payload; it is bare
until a value id holds it. A run-time value is its id.
-/

namespace ContractGuard

abbrev ValueId := String

structure TypedValue where
  ty : ScalarType
  value : Payload
  isLiteral : Bool
  operand : Option ValueId
deriving DecidableEq

def Payload.asOperand? : Payload → Option ValueId
  | .null => none
  | .int n => some (toString n)
  | p => p.plain

namespace TypedValue

def literal (ty : ScalarType) (value : Payload) : TypedValue := ⟨ty, value, true, none⟩

def runtime (ty : ScalarType) (operand : ValueId) : TypedValue :=
  ⟨ty, .text operand, false, some operand⟩

/-- A run-time value given without an id is named by its payload. -/
def ofParts (ty : ScalarType) (value : Payload) (isLiteral : Bool) (operand : Option ValueId) :
    TypedValue :=
  ⟨ty, value, isLiteral, if isLiteral then operand else operand <|> value.asOperand?⟩

end TypedValue

end ContractGuard
