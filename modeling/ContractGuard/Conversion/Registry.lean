import ContractGuard.Conversion.Procedure

/-!
# The conversion registry

Procedures are registered by type name while the registry is open. Closing it
requires exactly the types of the table; afterwards it only answers look-ups. A
step that fails keeps what it had changed, so the registry is the state below the
exception.
-/

namespace ContractGuard

structure ConversionEntry where
  target : ScalarType
  procedure : Procedure

inductive Registry where
  | opened (pending : List (String × Procedure))
  | closed (entries : List ConversionEntry)

abbrev Registering := ExceptT Fault (StateM Registry)

namespace Registry

def empty : Registry := opened []

def isClosed : Registry → Bool
  | opened _ => false
  | closed _ => true

def size : Registry → Nat
  | opened _ => 0
  | closed entries => entries.length

def register (name : String) (procedure : Procedure) : Registering Unit := do
  match ← get with
  | closed _ => throw (.configuration (.registryClosed name))
  | opened pending =>
    if (pending.lookup name).isSome then
      throw (.configuration (.duplicateRegistration name))
    set (opened (pending ++ [(name, procedure)]))

def registerEach (chosen : List (String × Procedure)) : Registering Unit :=
  chosen.forM fun (name, procedure) => register name procedure

def missing (pending : List (String × Procedure)) : List String :=
  (ScalarType.table.map (·.name)).filter fun name => (pending.lookup name).isNone

def unknown (pending : List (String × Procedure)) : List String :=
  ((pending.map (·.1)).filter fun name => !ScalarType.isName name).mergeSort
    fun a b => decide (a ≤ b)

def entriesOf (pending : List (String × Procedure)) : List ConversionEntry :=
  ScalarType.table.filterMap fun ty => (pending.lookup ty.name).map fun p => ⟨ty, p⟩

def close : Registering Unit := do
  match ← get with
  | closed _ => return
  | opened pending =>
    if !((missing pending).isEmpty && (unknown pending).isEmpty) then
      throw (.configuration (.incompleteRegistry (missing pending) (unknown pending)))
    set (closed (entriesOf pending))

/-- Asking for a type that the registry does not know is a fault of the source. -/
def resolve (r : Registry) (name : String) (span : Span) : Except Fault ConversionEntry :=
  match r with
  | opened _ => .error (.configuration .registryNotClosed)
  | closed entries =>
    match entries.find? (·.target.name = name) with
    | some entry => .ok entry
    | none => Fault.blame span (.unsupportedConversion name)

def lookUp (name : String) (span : Span) : Registering ConversionEntry := do
  ExceptT.mk (pure ((← get).resolve name span))

def choosing (choose : ScalarType → Procedure) : List (String × Procedure) :=
  ScalarType.table.map fun ty => (ty.name, choose ty)

def usual (ty : ScalarType) : Procedure := Procedure.forKind ty.kind

def default : Registry := closed (entriesOf (choosing usual))

end Registry

end ContractGuard
