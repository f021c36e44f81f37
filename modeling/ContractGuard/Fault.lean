import ContractGuard.Decimal.Context
import ContractGuard.Payload.Basic
import ContractGuard.Source.Diagnostic

/-!
# Faults

A source fault lies in the program being compiled and ends one function with a
diagnostic. A configuration fault lies in the tables of the compiler. A decimal
signal and a misuse come from values that no checked step hands on. All of the
wording is here.
-/

namespace ContractGuard

inductive Cause where
  | unsupportedConversion (typeName : String)
  | literalOutOfRange (value : Payload) (typeName : String)
  | invalidConversion (reason : String) (construct : Option String)
  | typeMismatch (left right : String) (construct : Option String)
  | overflowAtCompileTime (op typeName : String) (result : Payload)
  | divisionByZero
  | nonNumericOperand (op typeName : String)
  | missingVisibility (function : String)
  | conflictingVisibility (function : String)
  | payableConstantConflict (function : String)
  | unknownAttribute (function written : String)
  | attributeRejection (message function : String)
  | unknownName (name : String)
  | unknownTypeName (name : String)
  | duplicateName (name : String)
  | other (message : String) (construct : Option String)
deriving DecidableEq

namespace Cause

def code : Cause → String
  | unsupportedConversion _ => "UnsupportedConversion"
  | literalOutOfRange .. => "LiteralOutOfRange"
  | invalidConversion .. => "InvalidConversion"
  | typeMismatch .. => "TypeMismatch"
  | overflowAtCompileTime .. => "OverflowAtCompileTime"
  | divisionByZero => "DivisionByZero"
  | nonNumericOperand .. => "NonNumericOperand"
  | missingVisibility _ => "MissingVisibility"
  | conflictingVisibility _ => "ConflictingVisibility"
  | payableConstantConflict _ => "PayableConstantConflict"
  | unknownAttribute .. => "UnknownAttribute"
  | attributeRejection .. => "AttributeRejection"
  | unknownName _ => "UnknownName"
  | unknownTypeName _ => "UnknownTypeName"
  | duplicateName _ => "DuplicateName"
  | other .. => "SourceError"

def rejection (function message : String) : String :=
  "function '" ++ function ++ "': " ++ message

/-- A cause that shows an integer without a text has no message. -/
def message : Cause → Option String
  | unsupportedConversion typeName => some ("conversion to unsupported type '" ++ typeName ++ "'")
  | literalOutOfRange value typeName => value.quoted.map fun shown =>
    "literal " ++ shown ++ " is out of range for '" ++ typeName ++ "'"
  | invalidConversion reason _ => some ("invalid conversion: " ++ reason)
  | typeMismatch left right _ =>
    some ("operand types '" ++ left ++ "' and '" ++ right ++ "' differ; convert explicitly")
  | overflowAtCompileTime op typeName result => result.plain.map fun shown =>
    "'" ++ op ++ "' on constant operands yields " ++ shown ++
      ", outside the range of '" ++ typeName ++ "'"
  | divisionByZero => some "division by constant zero"
  | nonNumericOperand op typeName => some ("'" ++ op ++ "' is not defined for '" ++ typeName ++ "'")
  | missingVisibility function =>
    some (rejection function "missing visibility attribute (@public or @private)")
  | conflictingVisibility function =>
    some (rejection function "@public and @private are mutually exclusive")
  | payableConstantConflict function =>
    some (rejection function "a @constant function cannot be @payable")
  | unknownAttribute function written =>
    some (rejection function ("unknown attribute '@" ++ written ++ "'"))
  | attributeRejection message function => some (rejection function message)
  | unknownName name => some ("unknown name '" ++ name ++ "'")
  | unknownTypeName name => some ("unknown type '" ++ name ++ "'")
  | duplicateName name => some ("'" ++ name ++ "' is already defined")
  | other message _ => some message

def construct : Cause → Option String
  | unsupportedConversion typeName => some typeName
  | literalOutOfRange value _ => value.quoted
  | invalidConversion _ construct => construct
  | typeMismatch left right construct =>
    match construct with
    | none | some "" => some (left ++ ", " ++ right)
    | given => given
  | overflowAtCompileTime op .. => some op
  | divisionByZero => some "div"
  | nonNumericOperand op _ => some op
  | missingVisibility function => some function
  | conflictingVisibility function => some function
  | payableConstantConflict function => some function
  | unknownAttribute function _ => some function
  | attributeRejection _ function => some function
  | unknownName name => some name
  | unknownTypeName name => some name
  | duplicateName name => some name
  | other _ construct => construct

def isAttributeRejection : Cause → Bool
  | missingVisibility _ | conflictingVisibility _ | payableConstantConflict _
  | unknownAttribute .. | attributeRejection .. => true
  | _ => false

end Cause

structure SourceFault where
  cause : Cause
  span : Span
deriving DecidableEq

/-- A fault that was raised has a message, see `Fault.blame`. -/
def SourceFault.toDiagnostic (e : SourceFault) : Diagnostic :=
  { message := e.cause.message.getD "", code := some e.cause.code, phase := some "safety",
    span := e.span, construct := e.cause.construct }

inductive ConfigurationFault where
  | unknownType (name : String)
  | duplicateRegistration (name : String)
  | registryClosed (name : String)
  | registryNotClosed
  | incompleteRegistry (missing unknown : List String)
  | other (message : String)
deriving DecidableEq

def ConfigurationFault.message : ConfigurationFault → String
  | unknownType name => "scalar type '" ++ name ++ "' is not in the range table"
  | duplicateRegistration name => "conversion to '" ++ name ++ "' is already registered"
  | registryClosed name =>
    "cannot register conversion to '" ++ name ++ "': registry is closed"
  | registryNotClosed => "conversion registry was used before close()"
  | incompleteRegistry missing unknown =>
    let lacking := if missing.isEmpty then []
      else ["missing conversions for " ++ ", ".intercalate missing]
    let foreign := if unknown.isEmpty then []
      else ["conversions registered for unknown types " ++ ", ".intercalate unknown]
    match lacking ++ foreign with
    | [] => "conversion registry is incomplete"
    | parts => "; ".intercalate parts
  | other message => message

inductive Misuse where
  | unknownOperator (shown : String)
  | unknownMode (shown : String)
  | unknownAbort (shown : String)
  | noRejection (state : String)
  | badWorkers (shown : String)
  | untyped
  | unsupportedStatement
  | unsupportedExpression
  | integerDivisionByZero
  | noDecimalReading (what : String)
  | noIntegerReading (what : String)
  | noByteReading (what : String)
  | malformedInteger (shown : String)
  | longInteger
  | longNumeral (digits : Nat)
  | undefinedInteger
  | infiniteInteger
  | textAsBytes
  | negativeByteCount
  | negativeByteLength
  | negativeAsUnsigned
  | tooWideForBytes
deriving DecidableEq

def Misuse.digitLimit : String :=
  "Exceeds the limit (" ++ toString textLimit ++ " digits) for integer string conversion"

def Misuse.message : Misuse → String
  | unknownOperator shown => shown ++ " is not a valid ArithOp"
  | unknownMode shown => shown ++ " is not a valid ConvertMode"
  | unknownAbort shown => shown ++ " is not a valid AbortCode"
  | noRejection state => "verdict " ++ state ++ " has no error"
  | badWorkers shown => "workers must be a positive integer, got " ++ shown
  | untyped => "TypedValue requires a ScalarType, got None"
  | unsupportedStatement => "unsupported statement Stmt"
  | unsupportedExpression => "unsupported expression Expr"
  | integerDivisionByZero => "integer division or modulo by zero"
  | noDecimalReading what => "conversion from " ++ what ++ " to Decimal is not supported"
  | noIntegerReading what =>
    "int() argument must be a string, a bytes-like object or a real number, not '" ++ what ++ "'"
  | noByteReading what => "cannot convert '" ++ what ++ "' object to bytes"
  | malformedInteger shown => "invalid literal for int() with base 10: " ++ shown
  | longInteger => digitLimit ++ "; use sys.set_int_max_str_digits() to increase the limit"
  | longNumeral digits =>
    digitLimit ++ ": value has " ++ toString digits ++
      " digits; use sys.set_int_max_str_digits() to increase the limit"
  | undefinedInteger => "cannot convert NaN to integer"
  | infiniteInteger => "cannot convert Infinity to integer"
  | textAsBytes => "string argument without an encoding"
  | negativeByteCount => "negative count"
  | negativeByteLength => "length argument must be non-negative"
  | negativeAsUnsigned => "can't convert negative int to unsigned"
  | tooWideForBytes => "int too big to convert"

/-- The misuse that shows an integer, itself too long to be shown or not. -/
def Misuse.showing (n : Int) (misuse : String → Misuse) : Misuse :=
  match integerText n with
  | some shown => misuse shown
  | none => longInteger

inductive Fault where
  | source (e : SourceFault)
  | configuration (e : ConfigurationFault)
  | signal (s : Signal)
  | misuse (m : Misuse)
deriving DecidableEq

namespace Fault

/-- Raising a cause writes its message first. -/
def blame {α : Type} (span : Span) (cause : Cause) : Except Fault α :=
  match cause.message with
  | some _ => .error (.source ⟨cause, span⟩)
  | none => .error (.misuse .longInteger)

def require (holds : Bool) (span : Span) (cause : Cause) : Except Fault Unit :=
  if holds then .ok () else blame span cause

def ofSignal {α : Type} : Except Signal α → Except Fault α
  | .ok a => .ok a
  | .error s => .error (.signal s)

end Fault

end ContractGuard
