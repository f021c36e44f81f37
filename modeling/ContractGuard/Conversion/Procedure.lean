import ContractGuard.BigEndian
import ContractGuard.Code.Node
import ContractGuard.Payload.Reading

/-!
# Conversion procedures

A procedure says how a value of its source type becomes one of the target type: by
which mode at run time, and to which payload if it is a literal. There is one for
integers, one for fixed-point numbers and one for byte strings; a pair of types
without a meaning is refused. Any function of this shape may serve as a procedure,
so nothing downstream trusts a payload that one returns.
-/

namespace ContractGuard

structure Converted where
  mode : ConvertMode
  literal : Payload
deriving DecidableEq

structure Procedure where
  name : String
  run : TypedValue → ScalarType → Span → Except Fault Converted

namespace Procedure

def refuse (source target : ScalarType) (why : String) (span : Span) : Except Fault Converted :=
  Fault.blame span
    (.invalidConversion (source.name ++ " -> " ++ target.name ++ ": " ++ why)
      (some (target.name ++ "(" ++ source.name ++ ")")))

def refuseLength (source target : ScalarType) (span : Span) : Except Fault Converted :=
  match integerText source.byteLength, integerText target.byteLength with
  | some length, some wanted =>
    refuse source target ("length " ++ length ++ " differs from " ++ wanted) span
  | _, _ => .error (.misuse .longInteger)

def resizeMode (source target : ScalarType) : ConvertMode :=
  if source = target then .identity
  else if source.bits ≤ target.bits then .extend
  else .truncate

def ifLiteral (value : TypedValue) (payload : Except Fault Payload) : Except Fault Payload :=
  if value.isLiteral then payload else .ok .null

/-- A whole number in whatever scale it is written. -/
def wholePart (source target : ScalarType) (d : Decimal) (span : Span) : Except Fault Converted :=
  let fractional := refuse source target ("literal " ++ d.text ++ " has a fractional part") span
  match d with
  | .finite x => if x.hasFraction then fractional else .ok ⟨.fromFixed, .int x.truncate⟩
  | .infinite _ => .error (.misuse .infiniteInteger)
  | .nan true .. => .error (.signal .invalidOperation)
  | .nan false .. => fractional

def toInteger : Procedure where
  name := "to_integer"
  run value target span := do
    match value.ty.kind with
    | .uint | .int =>
      return ⟨resizeMode value.ty target, ← ifLiteral value (.ok value.value)⟩
    | .decimal =>
      if value.isLiteral then wholePart value.ty target (← value.value.toDecimal) span
      else return ⟨.fromFixed, .null⟩
    | .bytes =>
      if value.ty.bits ≠ target.bits then
        refuse value.ty target "byte length must match the integer width" span
      else
        return ⟨.bytesToInt, ← ifLiteral value do
          let bs ← value.value.toBytes
          return .int (if target.signed then BigEndian.decodeSigned bs else BigEndian.decode bs)⟩

def toDecimal : Procedure where
  name := "to_decimal"
  run value target span := do
    match value.ty.kind with
    | .decimal => return ⟨.identity, ← ifLiteral value (.ok value.value)⟩
    | .uint | .int =>
      return ⟨.toFixed, ← ifLiteral value (return .decimal (← value.value.toDecimal))⟩
    | .bytes => refuse value.ty target "byte sequences have no numeric value" span

def unsignedBytes (length n : Int) : Except Fault (List UInt8) :=
  if length < 0 then .error (.misuse .negativeByteLength)
  else if n < 0 then .error (.misuse .negativeAsUnsigned)
  else if (BigEndian.count length.toNat : Int) ≤ n then .error (.misuse .tooWideForBytes)
  else .ok (BigEndian.encode length.toNat n.toNat)

/-- Only byte strings of the same length and unsigned integers of the same width
become byte strings; nothing is padded or cut. -/
def toBytes : Procedure where
  name := "to_bytes"
  run value target span := do
    match value.ty.kind with
    | .bytes =>
      if value.ty.byteLength ≠ target.byteLength then refuseLength value.ty target span
      else return ⟨.identity, ← ifLiteral value (.ok value.value)⟩
    | .uint =>
      if value.ty.bits ≠ target.bits then
        refuse value.ty target "integer width must match the byte length" span
      else
        return ⟨.intToBytes, ← ifLiteral value do
          return .bytes (← unsignedBytes target.byteLength (← value.value.toInt))⟩
    | .int =>
      refuse value.ty target "signed integers must be converted to an unsigned type first" span
    | .decimal =>
      refuse value.ty target "fixed-point values cannot be reinterpreted as bytes" span

def forKind : ScalarKind → Procedure
  | .uint | .int => toInteger
  | .decimal => toDecimal
  | .bytes => toBytes

def builtin : List Procedure := [toInteger, toDecimal, toBytes]

end Procedure

end ContractGuard
