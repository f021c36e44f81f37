import ContractGuard.Scalar.Table

/-!
# Legal literals

An integer type takes the integers of its range, a fixed-point type the integers
and decimals of its range that end at its last place or before, and a byte type
the strings of its length.
-/

namespace ContractGuard.ScalarType

/-- Moving the number to the last place of the type does not change it. -/
def onGrid (ty : ScalarType) (x : Scaled) : Except Signal Bool := do
  let place ← Context.plain.placeOf ty.scale
  let moved ← Context.wide.quantizeFinite .halfEven x place
  return x.same moved

def literalInRange (ty : ScalarType) (value : Payload) : Except Fault Bool := do
  let range ← ty.bounds
  match ty.kind, value with
  | .bytes, .bytes bs => return (bs.length : Int) == ty.byteLength
  | .bytes, _ => return false
  | .decimal, value =>
    match value.number? with
    | some x => if range.contains value then Fault.ofSignal (ty.onGrid x) else return false
    | none => return false
  | _, .int _ => return range.contains value
  | _, _ => return false

end ContractGuard.ScalarType
