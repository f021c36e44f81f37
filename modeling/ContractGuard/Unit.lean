import ContractGuard.Lowering
import ContractGuard.Options
import ContractGuard.Syntax.Source

/-!
# Compiling a unit

Each declaration is compiled on its own and in order: it is accepted with its code,
or rejected with one diagnostic. Only a fault outside of the source ends the unit.
-/

namespace ContractGuard

structure FunctionResult where
  name : String
  verdict : Verdict
  compiled : Option CompiledFunction := none
  diagnostics : List Diagnostic := []
deriving DecidableEq

def FunctionResult.isOk (f : FunctionResult) : Bool := f.compiled.isSome

/-- The diagnostics of the unit itself say why its text could not be read. -/
structure CompiledUnit where
  functions : List FunctionResult := []
  diagnostics : List Diagnostic := []
deriving DecidableEq

structure Summary where
  exitCode : Nat
  functions : List String
  diagnostics : List Diagnostic
deriving DecidableEq

namespace CompiledUnit

def compiled (u : CompiledUnit) : List CompiledFunction := u.functions.filterMap (·.compiled)

def allDiagnostics (u : CompiledUnit) : List Diagnostic :=
  u.diagnostics ++ u.functions.flatMap (·.diagnostics)

def hasErrors (u : CompiledUnit) : Bool := u.allDiagnostics.any Diagnostic.isError

def summary (u : CompiledUnit) : Summary where
  exitCode := if u.hasErrors then 1 else 0
  functions := (u.functions.filter FunctionResult.isOk).map (·.name)
  diagnostics := u.allDiagnostics

end CompiledUnit

namespace FunctionDecl

/-- A rejected attribute set is reported before anything else is looked at. -/
def compile (decl : FunctionDecl) (r : Registry) : Except Fault FunctionResult :=
  let verdict := Attribute.validate decl.attributes
  if verdict.isAccepted then
    match decl.lower r with
    | .ok f => .ok ⟨decl.name, verdict, some f, []⟩
    | .error (.source e) => .ok ⟨decl.name, verdict, none, [e.toDiagnostic]⟩
    | .error e => .error e
  else
    match verdict.toFault decl.name decl.span with
    | .ok e => .ok ⟨decl.name, verdict, none, [e.toDiagnostic]⟩
    | .error m => .error (.misuse m)

end FunctionDecl

namespace CompiledUnit

def ofDecls (decls : List FunctionDecl) (o : Options) (r : Registry) :
    Except Fault CompiledUnit := do
  o.validate
  return { functions := ← decls.mapM fun decl => decl.compile r }

def ofSource (source : String) (o : Options) : Except Fault CompiledUnit := do
  o.validate
  match ← Reading.ofSource source o.file with
  | .refused d => return { diagnostics := [d] }
  | .declarations decls => ofDecls decls o .default

end CompiledUnit

end ContractGuard
