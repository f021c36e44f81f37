import ContractGuard.Lowering
import ContractGuard.Proofs.Semantics.Machine

/-!
# The meaning of a declaration

A declaration is evaluated directly, with the types of values and without any code.
Every value that a conversion or an operation makes has to lie in the range of its type,
and the first violation aborts. An expression without a meaning gets stuck: a name that
is not bound, a conversion between unrelated types, an operation on different types.
-/

namespace ContractGuard

structure Cell where
  ty : ScalarType
  datum : Datum
deriving DecidableEq

abbrev Environment := List (String × Cell)

def ScalarType.confine (ty : ScalarType) (d : Datum) : Except Halt Cell :=
  match d.reading? with
  | some q => if ty.InRange q then .ok ⟨ty, d⟩ else .error (.aborted .rangeViolation)
  | none => .error .stuck

/-- What a value becomes in another type, in range or not. Numbers keep their value,
except that a whole number is what is left of a fixed-point one toward zero; bytes and
whole numbers of the same width stand for each other, most significant byte first. -/
def Cell.recast? (c : Cell) (target : ScalarType) : Option Datum :=
  match c.ty.kind, target.kind, c.datum with
  | .uint, .uint, .number q | .uint, .int, .number q | .int, .uint, .number q
  | .int, .int, .number q => some (.number q)
  | .uint, .decimal, .number q | .int, .decimal, .number q
  | .decimal, .decimal, .number q => some (.number q)
  | .decimal, .uint, .number q | .decimal, .int, .number q => some (.number (whole q))
  | .bytes, .uint, .bytes bs =>
    if c.ty.bits = target.bits then some (.number (BigEndian.decode bs)) else none
  | .bytes, .int, .bytes bs =>
    if c.ty.bits = target.bits then some (.number (BigEndian.decodeSigned bs)) else none
  | .uint, .bytes, .number q =>
    if c.ty.bits = target.bits then
      some (.bytes (BigEndian.encode target.byteLength.toNat (whole q).toNat))
    else none
  | .bytes, .bytes, .bytes bs =>
    if c.ty.byteLength = target.byteLength then some (.bytes bs) else none
  | _, _, _ => none

def Cell.convert (c : Cell) (target : ScalarType) : Except Halt Cell :=
  match c.recast? target with
  | some d => target.confine d
  | none => .error .stuck

def ArithOp.evaluate (op : ArithOp) (left right : Cell) : Except Halt Cell :=
  match left.datum, right.datum with
  | .number x, .number y =>
    if left.ty ≠ right.ty ∨ left.ty.kind = .bytes then .error .stuck
    else if op = .div ∧ y = 0 then .error (.aborted .divisionByZero)
    else left.ty.confine (.number (op.meaning left.ty x y))
  | _, _ => .error .stuck

def Expr.eval (env : Environment) : Expr → Except Halt Cell
  | .literal value (some ty) _ => .ok ⟨ty, value.datum⟩
  | .literal _ none _ => .error .stuck
  | .name ident _ =>
    match env.lookup ident with
    | some c => .ok c
    | none => .error .stuck
  | .conversion target arg _ => do
    let c ← arg.eval env
    match ScalarType.find? target with
    | some ty => c.convert ty
    | none => .error .stuck
  | .binary (.known op) left right _ => do
    let x ← left.eval env
    let y ← right.eval env
    op.evaluate x y
  | .binary (.unknown _) _ _ _ => .error .stuck
  | .unsupported _ => .error .stuck

/-- A name is bound once, and a returned value has the type that was declared. -/
def Stmt.exec (result : Option ScalarType) (env : Environment) : Stmt → Except Halt Environment
  | .bind name value _ => do
    let c ← value.eval env
    if (env.lookup name).isSome then .error .stuck else .ok ((name, c) :: env)
  | .eval value _ => do
    let _ ← value.eval env
    .ok env
  | .ret none _ => .error (if result = none then .returned none else .stuck)
  | .ret (some value) _ => do
    let c ← value.eval env
    .error (if result.all (· = c.ty) then .returned (some c.datum) else .stuck)
  | .unsupported _ => .error .stuck

def Param.bind (args : Arguments) (env : Environment) (p : Param) : Except Halt Environment :=
  match ScalarType.find? p.typeName with
  | some ty =>
    if (env.lookup p.name).isSome then .error .stuck
    else .ok ((p.name, ⟨ty, args p.name⟩) :: env)
  | none => .error .stuck

namespace FunctionDecl

def evalResult (decl : FunctionDecl) : Except Halt (Option ScalarType) :=
  match decl.returnType with
  | none => .ok none
  | some name =>
    match ScalarType.find? name with
    | some ty => .ok (some ty)
    | none => .error .stuck

def exec (decl : FunctionDecl) (args : Arguments) : Except Halt Halt := do
  let result ← decl.evalResult
  let env ← decl.params.foldlM (Param.bind args) []
  let _ ← decl.body.foldlM (Stmt.exec result) env
  return if result = none then .returned none else .stuck

def outcome (decl : FunctionDecl) (args : Arguments) : Halt :=
  match decl.exec args with
  | .ok halt => halt
  | .error halt => halt

def Accepts (decl : FunctionDecl) (args : Arguments) : Prop :=
  ∀ p ∈ decl.params, ∀ ty, ScalarType.find? p.typeName = some ty → ty.Holds (args p.name)

end FunctionDecl

def Expr.TableTyped : Expr → Prop
  | .literal _ ty _ => ∀ t, ty = some t → t ∈ ScalarType.table
  | .conversion _ arg _ => arg.TableTyped
  | .binary _ left right _ => left.TableTyped ∧ right.TableTyped
  | _ => True

def Stmt.TableTyped : Stmt → Prop
  | .bind _ value _ => value.TableTyped
  | .eval value _ => value.TableTyped
  | .ret value _ => ∀ e, value = some e → e.TableTyped
  | .unsupported _ => True

def FunctionDecl.TableTyped (decl : FunctionDecl) : Prop := ∀ s ∈ decl.body, s.TableTyped

end ContractGuard
