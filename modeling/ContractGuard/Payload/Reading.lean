import ContractGuard.Fault

/-!
# Reading a payload as a number or as bytes

Only payloads that were never checked against a type can be of the wrong kind for
these; what they are read as is fixed all the same.
-/

namespace ContractGuard.Payload

def kindName : Payload → String
  | .null => "NoneType"
  | .int _ => "int"
  | .bool _ => "bool"
  | .decimal _ => "decimal.Decimal"
  | .bytes _ => "bytes"
  | .text _ => "str"

def toDecimal : Payload → Except Fault Decimal
  | .int n => .ok (.ofInt n)
  | .bool b => .ok (.ofInt b.toNat)
  | .decimal d => .ok d
  | .text s =>
    match Decimal.ofText? s with
    | some d => .ok d
    | none => .error (.signal .invalidOperation)
  | p => .error (.misuse (.noDecimalReading p.kindName))

def digitGroups? (cs : List Char) : Option (List Char) :=
  let groups := cs.splitOn '_'
  if groups.any (fun g => g.isEmpty || !Decimal.isDigits g) then none
  else some groups.flatten

/-- The digits are counted before anything is made of what follows them. -/
def readInt (shown : String) (cs : List Char) : Except Fault Int :=
  let (negative, body) := Decimal.splitSign (Decimal.trim cs)
  let (run, rest) := body.span fun c => c.isDigit || c == '_'
  match digitGroups? run with
  | none => .error (.misuse (.malformedInteger shown))
  | some digits =>
    if textLimit < digits.length then .error (.misuse (.longNumeral digits.length))
    else if !rest.isEmpty then .error (.misuse (.malformedInteger shown))
    else
      let n : Int := Nat.ofDigitChars 10 digits 0
      .ok (if negative then -n else n)

def toInt : Payload → Except Fault Int
  | .int n => .ok n
  | .bool b => .ok b.toNat
  | .decimal (.finite x) => .ok x.truncate
  | .decimal (.infinite _) => .error (.misuse .infiniteInteger)
  | .decimal (.nan ..) => .error (.misuse .undefinedInteger)
  | .text s => readInt (Text.quoted s) s.toList
  | .bytes bs => readInt (Text.quotedBytes bs) (bs.map fun b => Char.ofNat b.toNat)
  | p => .error (.misuse (.noIntegerReading p.kindName))

def toBytes : Payload → Except Fault (List UInt8)
  | .bytes bs => .ok bs
  | .int n =>
    if n < 0 then .error (.misuse .negativeByteCount) else .ok (List.replicate n.toNat 0)
  | .bool b => .ok (List.replicate b.toNat 0)
  | .text _ => .error (.misuse .textAsBytes)
  | p => .error (.misuse (.noByteReading p.kindName))

end ContractGuard.Payload
