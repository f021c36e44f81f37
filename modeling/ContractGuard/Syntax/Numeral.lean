import ContractGuard.Decimal.Arithmetic
import ContractGuard.Scalar.Table

/-!
# Numerals

An integer is unsigned unless a sign stands before it, a decimal is fixed-point,
and a hexadecimal numeral is the byte string that it spells. A decimal keeps the
places it is written with; its sign is taken in the plain context.
-/

namespace ContractGuard

inductive NumeralFault where
  | tooManyDigits (count : Nat)
  | oddDigits (text : String)
  | noByteType (length : Nat)
  | signal (s : Signal)
deriving DecidableEq

structure Constant where
  value : Payload
  ty : ScalarType
deriving DecidableEq

namespace Numeral

def maxDigits : Nat := 78

def magnitude? (digits : List Char) : Except NumeralFault Nat :=
  let significant := digits.dropWhile (· = '0')
  if maxDigits < significant.length then .error (.tooManyDigits significant.length)
  else .ok (Nat.ofDigitChars 10 significant 0)

def integer (digits : List Char) : Except NumeralFault Constant :=
  return ⟨.int (← magnitude? digits), .uint 256⟩

def negativeInteger (digits : List Char) : Except NumeralFault Constant :=
  return ⟨.int (-(← magnitude? digits)), .int 256⟩

/-- The number with `digits` after `total`. The digits are gathered in a short number
`part`, below `scale`, before they meet a total that may be long. -/
def readOn (total part scale : Nat) (digits : List Char) : Nat :=
  match digits with
  | [] => total * scale + part
  | c :: digits =>
    let digit := c.toNat - '0'.toNat
    if scale < tenPow 1000 then readOn total (10 * part + digit) (10 * scale) digits
    else readOn (total * scale + part) digit 10 digits

def decimalOf (whole fraction : List Char) : Decimal :=
  .finite ⟨false, readOn 0 0 1 (whole ++ fraction), -fraction.length⟩

def decimal (whole fraction : List Char) : Except NumeralFault Constant :=
  .ok ⟨.decimal (decimalOf whole fraction), .fixed⟩

def negativeDecimal (whole fraction : List Char) : Except NumeralFault Constant :=
  match (decimalOf whole fraction).neg .plain with
  | .ok d => .ok ⟨.decimal d, .fixed⟩
  | .error s => .error (.signal s)

def hexDigitValue (c : Char) : Nat :=
  if c.isDigit then c.toNat - '0'.toNat else c.toLower.toNat - 'a'.toNat + 10

def bytePairs : List Char → List UInt8
  | high :: low :: rest =>
    UInt8.ofNat (16 * hexDigitValue high + hexDigitValue low) :: bytePairs rest
  | _ => []

def hex (digits : List Char) : Except NumeralFault Constant :=
  if digits.length % 2 = 1 then .error (.oddDigits (String.ofList ('0' :: 'x' :: digits)))
  else
    let bs := bytePairs digits
    if ScalarType.byteWidths.contains bs.length then .ok ⟨.bytes bs, .byteString bs.length⟩
    else .error (.noByteType bs.length)

end Numeral

end ContractGuard
