import ContractGuard.Source.Span

/-!
# Diagnostics
-/

namespace ContractGuard

structure Diagnostic where
  message : String
  code : Option String := none
  phase : Option String := none
  severity : String := "error"
  span : Span := {}
  construct : Option String := none
  notes : List String := []
deriving DecidableEq

namespace Diagnostic

def isError (d : Diagnostic) : Bool := d.severity = "error"

def file (d : Diagnostic) (default : Option String) : Option String := d.span.fileOr default

end Diagnostic

end ContractGuard
