import ContractGuard.Fault

/-!
# Compiler options

Declarations are independent, so the number of workers never changes an answer; it
only has to be a positive integer.
-/

namespace ContractGuard

inductive WorkerRequest where
  | count (n : Int)
  | flag (b : Bool)
  /-- Something that is no integer, as messages show it. -/
  | other (shown : String)
deriving DecidableEq

structure Options where
  workers : WorkerRequest := .count 1
  file : Option String := none
deriving DecidableEq

def WorkerRequest.validate : WorkerRequest → Except Fault Unit
  | count n => if 1 ≤ n then return () else .error (.misuse (.showing n .badWorkers))
  | flag true => return ()
  | flag false => .error (.misuse (.badWorkers "False"))
  | other shown => .error (.misuse (.badWorkers shown))

def Options.validate (o : Options) : Except Fault Unit := o.workers.validate

end ContractGuard
