import ContractGuard.Code.Node

/-!
# The code buffer

Nodes are appended and value ids are handed out in order. A step that fails keeps
what it had emitted, so the buffer is the state below the exception.
-/

namespace ContractGuard

structure Buffer where
  name : String
  nodes : List Node := []
  nextValue : Nat := 0
deriving DecidableEq

def ValueId.ofIndex (n : Nat) : ValueId := "%" ++ toString n

def Buffer.finish (b : Buffer) : CompiledFunction := ⟨b.name, b.nodes⟩

abbrev Emit := ExceptT Fault (StateM Buffer)

namespace Emit

def newValue : Emit ValueId :=
  modifyGet fun b => (ValueId.ofIndex b.nextValue, { b with nextValue := b.nextValue + 1 })

def node (n : Node) : Emit Unit := modify fun b => { b with nodes := b.nodes ++ [n] }

def ofExcept {α : Type} (x : Except Fault α) : Emit α := ExceptT.mk (pure x)

/-- The id that holds the value; a bare literal becomes a constant first. -/
def materialize (value : TypedValue) : Emit ValueId :=
  match value.operand with
  | some operand => return operand
  | none => do
    let dest ← newValue
    node (.const dest value.ty value.value)
    return dest

/-- The bounds always come from the range table. -/
def clamp (src : ValueId) (ty : ScalarType) : Emit ValueId := do
  let range ← ofExcept ty.bounds
  let dest ← newValue
  node (.clamp dest src range.lower range.upper ty .rangeViolation)
  return dest

end Emit

end ContractGuard
