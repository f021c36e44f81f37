import ContractGuard.Decimal.Text
import ContractGuard.Text.Quoted

/-!
# Payloads

A payload is what is known of a value before the program runs: a number, a byte
string, or for a value known only at run time the text of its id. Numbers of both
kinds compare exactly.
-/

namespace ContractGuard

def textLimit : Nat := 4300

/-- Past `textLimit` digits an integer has no text. -/
def integerText (n : Int) : Option String :=
  if digitCount n.natAbs ≤ textLimit then some (toString n) else none

inductive Payload where
  | null
  | int (n : Int)
  | bool (b : Bool)
  | decimal (d : Decimal)
  | bytes (bs : List UInt8)
  | text (s : String)
deriving DecidableEq

namespace Payload

def plain : Payload → Option String
  | .null => some "None"
  | .int n => integerText n
  | .bool true => some "True"
  | .bool false => some "False"
  | .decimal d => some d.text
  | .bytes bs => some (Text.quotedBytes bs)
  | .text s => some s

/-- The form in which a message names the payload, which shows its kind. -/
def quoted : Payload → Option String
  | .decimal d => some ("Decimal('" ++ d.text ++ "')")
  | .text s => some (Text.quoted s)
  | p => p.plain

/-- The finite number that the payload is; truth values are not numbers. -/
def number? : Payload → Option Scaled
  | .int n => some (.ofInt n)
  | .decimal (.finite x) => some x
  | _ => none

def isZero (p : Payload) : Bool := p.number?.any (·.coefficient == 0)

def le (p q : Payload) : Bool :=
  match p.number?, q.number? with
  | some x, some y => x.le y
  | _, _ => false

end Payload

end ContractGuard
