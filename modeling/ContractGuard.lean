import ContractGuard.Code.Listing
import ContractGuard.Proofs.Semantics.Agreement
import ContractGuard.Proofs.Semantics.Constants
import ContractGuard.Proofs.Syntax.Rendering
import ContractGuard.Proofs.Unit.Answers
import ContractGuard.Proofs.Arithmetic.Exact
import ContractGuard.Proofs.Conversion.LifeCycle
import ContractGuard.Proofs.Lowering.Atomic
import ContractGuard.Proofs.Decimal.Exact
import ContractGuard.Proofs.Scalar.Legality
import ContractGuard.Proofs.Unit.Outcomes
import ContractGuard.Proofs.Syntax.Negation
import ContractGuard.Proofs.Syntax.Shift
import ContractGuard.Proofs.Syntax.Concatenation
import ContractGuard.Proofs.Lowering.Relocation
import ContractGuard.Proofs.Unit.Concatenation
import ContractGuard.Proofs.Conversion.Literal
import ContractGuard.Proofs.Conversion.Session
import ContractGuard.Proofs.Lowering.Ending
import ContractGuard.Proofs.Lowering.FirstFault
import ContractGuard.Proofs.Conversion.Reinterpretation
import ContractGuard.Proofs.Unit.Verdicts
import ContractGuard.Proofs.Scalar.Grid
import ContractGuard.Proofs.Lowering.Renaming
import ContractGuard.Proofs.Lowering.Listing
