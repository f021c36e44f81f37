/-!
# Scalar types
-/

namespace ContractGuard

inductive ScalarKind where
  | uint
  | int
  | decimal
  | bytes
deriving DecidableEq

/-- A type is its name together with its layout; `scale` counts the fractional
digits of a fixed-point type. Types are equal only if all four parts are. -/
structure ScalarType where
  name : String
  kind : ScalarKind
  bits : Int
  scale : Int := 0
deriving DecidableEq

namespace ScalarType

def signed (ty : ScalarType) : Bool := ty.kind = .int || ty.kind = .decimal

def isNumeric (ty : ScalarType) : Bool := ty.kind ≠ .bytes

def byteLength (ty : ScalarType) : Int := ty.bits.fdiv 8

end ScalarType

end ContractGuard
