import ContractGuard.TypedValue

/-!
# Safety code

A function is a flat list of nodes. A check that fails aborts execution with its
abort code; every other node computes one value.
-/

namespace ContractGuard

inductive ArithOp where
  | add
  | sub
  | mul
  | div
deriving DecidableEq

def ArithOp.name : ArithOp → String
  | add => "add"
  | sub => "sub"
  | mul => "mul"
  | div => "div"

def ArithOp.ofName? : String → Option ArithOp
  | "add" => some add
  | "sub" => some sub
  | "mul" => some mul
  | "div" => some div
  | _ => none

inductive OperatorName where
  | known (op : ArithOp)
  /-- Not one of the four; messages show it as given. -/
  | unknown (shown : String)
deriving DecidableEq

namespace OperatorName

def ofText (s : String) : OperatorName :=
  match ArithOp.ofName? s with
  | some op => known op
  | none => unknown (Text.quoted s)

def missing : OperatorName := unknown "None"

def resolve : OperatorName → Except Fault ArithOp
  | known op => .ok op
  | unknown shown => .error (.misuse (.unknownOperator shown))

end OperatorName

inductive AbortCode where
  | rangeViolation
  | divisionByZero
deriving DecidableEq

def AbortCode.name : AbortCode → String
  | rangeViolation => "RANGE_VIOLATION"
  | divisionByZero => "DIVISION_BY_ZERO"

def AbortCode.ofNumber (n : Int) : Except Fault AbortCode :=
  if n = 1 then .ok rangeViolation
  else if n = 2 then .ok divisionByZero
  else .error (.misuse (.showing n .unknownAbort))

inductive ConvertMode where
  | identity
  | extend
  | truncate
  | toFixed
  | fromFixed
  | bytesToInt
  | intToBytes
deriving DecidableEq

namespace ConvertMode

def all : List ConvertMode :=
  [identity, extend, truncate, toFixed, fromFixed, bytesToInt, intToBytes]

def name : ConvertMode → String
  | identity => "identity"
  | extend => "extend"
  | truncate => "truncate"
  | toFixed => "to_fixed"
  | fromFixed => "from_fixed"
  | bytesToInt => "bytes_to_int"
  | intToBytes => "int_to_bytes"

def ofName (s : String) : Except Fault ConvertMode :=
  match all.find? (·.name = s) with
  | some mode => .ok mode
  | none => .error (.misuse (.unknownMode (Text.quoted s)))

end ConvertMode

inductive Node where
  | const (dest : ValueId) (ty : ScalarType) (value : Payload)
  | loadParam (dest : ValueId) (name : String) (ty : ScalarType)
  | convert (dest src : ValueId) (fromTy toTy : ScalarType) (mode : ConvertMode)
  /-- Computed without wrapping; the clamp after it decides whether the result fits. -/
  | binary (dest : ValueId) (op : ArithOp) (left right : ValueId) (ty : ScalarType)
  /-- `dest` is `src` if that lies within the bounds. -/
  | clamp (dest src : ValueId) (lower upper : Payload) (ty : ScalarType) (abort : AbortCode)
  | zeroCheck (src : ValueId) (ty : ScalarType) (abort : AbortCode)
  | ret (value : Option ValueId)
  | bareCheck
  | bare
deriving DecidableEq

namespace Node

def kindName : Node → String
  | const .. => "Const"
  | loadParam .. => "LoadParam"
  | convert .. => "Convert"
  | binary .. => "BinaryOp"
  | clamp .. => "Clamp"
  | zeroCheck .. => "ZeroCheck"
  | ret _ => "Return"
  | bareCheck => "RuntimeCheck"
  | bare => "IRNode"

def isClamp : Node → Bool
  | clamp .. => true
  | _ => false

def isReturn : Node → Bool
  | ret _ => true
  | _ => false

end Node

structure CompiledFunction where
  name : String
  nodes : List Node
deriving DecidableEq

def CompiledFunction.clamps (f : CompiledFunction) : List Node := f.nodes.filter Node.isClamp

end ContractGuard
