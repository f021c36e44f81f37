import ContractGuard.Code.Buffer
import ContractGuard.Conversion.Registry
import ContractGuard.Scalar.Literal

/-!
# Converting a typed value

Conversions are always written out. A literal has to be legal for its own type and
to lie in the target's range before the procedure runs, and the payload that comes
back has to be legal for the target. Whatever the value is, the result is clamped
to the target's range.
-/

namespace ContractGuard

def requireLegal (ty : ScalarType) (payload : Payload) (span : Span) (cause : Cause) :
    Except Fault Unit := do
  Fault.require (← ty.literalInRange payload) span cause

def requireInBounds (ty : ScalarType) (payload : Payload) (span : Span) (cause : Cause) :
    Except Fault Unit := do
  Fault.require ((← ty.bounds).contains payload) span cause

def TypedValue.requireLegal (value : TypedValue) (span : Span) : Except Fault Unit :=
  if value.isLiteral then
    ContractGuard.requireLegal value.ty value.value span
      (.literalOutOfRange value.value value.ty.name)
  else .ok ()

namespace ConversionEntry

def requireSource (entry : ConversionEntry) (value : TypedValue) (span : Span) :
    Except Fault Unit :=
  if value.isLiteral && value.ty.isNumeric && entry.target.isNumeric then
    requireInBounds entry.target value.value span
      (.literalOutOfRange value.value entry.target.name)
  else .ok ()

def requireResult (entry : ConversionEntry) (value : TypedValue) (converted : Converted)
    (span : Span) : Except Fault Unit :=
  if value.isLiteral then
    requireLegal entry.target converted.literal span
      (.literalOutOfRange value.value entry.target.name)
  else .ok ()

/-- Everything that can refuse a conversion; nothing is emitted yet. -/
def plan (entry : ConversionEntry) (value : TypedValue) (span : Span) : Except Fault Converted := do
  value.requireLegal span
  entry.requireSource value span
  let converted ← entry.procedure.run value entry.target span
  entry.requireResult value converted span
  return converted

def emit (entry : ConversionEntry) (value : TypedValue) (converted : Converted) :
    Emit TypedValue := do
  let held ← Emit.materialize value
  let src ← if value.ty = entry.target then pure held else do
    let dest ← Emit.newValue
    Emit.node (.convert dest held value.ty entry.target converted.mode)
    pure dest
  let dest ← Emit.clamp src entry.target
  if value.isLiteral then return ⟨entry.target, converted.literal, true, some dest⟩
  else return .runtime entry.target dest

end ConversionEntry

def Registry.convert (r : Registry) (value : TypedValue) (target : String) (span : Span) :
    Emit TypedValue := do
  let entry ← Emit.ofExcept (r.resolve target span)
  let converted ← Emit.ofExcept (entry.plan value span)
  entry.emit value converted

end ContractGuard
