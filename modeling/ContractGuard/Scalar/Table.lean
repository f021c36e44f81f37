import ContractGuard.Fault
import ContractGuard.Scalar.Basic

/-!
# The scalar types and their ranges

The table is closed. Ranges are found by a type's name alone, whatever layout the
type at hand claims; a byte string is bounded as a big-endian number.
-/

namespace ContractGuard

structure Bounds where
  lower : Payload
  upper : Payload
deriving DecidableEq

def Bounds.contains (b : Bounds) (p : Payload) : Bool := b.lower.le p && p.le b.upper

namespace ScalarType

def widths : List Nat := [8, 16, 32, 64, 128, 256]

def byteWidths : List Nat := [1, 2, 4, 8, 16, 32]

def uint (width : Nat) : ScalarType := ⟨"uint" ++ toString width, .uint, width, 0⟩

def int (width : Nat) : ScalarType := ⟨"int" ++ toString width, .int, width, 0⟩

def fixed : ScalarType := ⟨"fixed128x18", .decimal, 128, 18⟩

def byteString (length : Nat) : ScalarType :=
  ⟨"bytes" ++ toString length, .bytes, 8 * length, 0⟩

def table : List ScalarType :=
  widths.map uint ++ widths.map int ++ [fixed] ++ byteWidths.map byteString

def find? (name : String) : Option ScalarType := table.find? (·.name = name)

def isName (name : String) : Bool := (find? name).isSome

def named (name : String) : Except Fault ScalarType :=
  match find? name with
  | some ty => .ok ty
  | none => .error (.configuration (.unknownType name))

/-- The range that the layout of a type of the table gives it. -/
def layoutBounds (ty : ScalarType) : Bounds :=
  let half := Nat.pow 2 (ty.bits - 1).toNat
  match ty.kind with
  | .uint | .bytes => ⟨.int 0, .int (Nat.pow 2 ty.bits.toNat - 1 : Nat)⟩
  | .int => ⟨.int (-half), .int (half - 1 : Nat)⟩
  | .decimal =>
    ⟨.decimal (.finite ⟨true, half, -ty.scale⟩),
      .decimal (.finite ⟨false, half - 1, -ty.scale⟩)⟩

def boundsOf (name : String) : Except Fault Bounds := return (← named name).layoutBounds

def bounds (ty : ScalarType) : Except Fault Bounds := boundsOf ty.name

end ScalarType

end ContractGuard
