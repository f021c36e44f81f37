import ContractGuard.Syntax.Declaration
import ContractGuard.Syntax.Lexeme
import ContractGuard.Syntax.Numeral

/-!
# Reading an expression

An expression is read token by token. At each parenthesis depth at most one sum and
one product wait for their right operand: products bind tighter, and both associate
to the left. A parenthesized expression keeps its own span, but what is built around
it extends to the parentheses.
-/

namespace ContractGuard

structure Extent where
  start : Position
  stop : Position
deriving DecidableEq

def Extent.span (file : Option String) (e : Extent) : Span :=
  ⟨fileName? file, some e.start.line, some e.start.column, some e.stop.line, some e.stop.column⟩

def Token.extent (t : Token) : Extent := ⟨t.start, t.stop⟩

inductive SyntaxFault where
  | stray (c : Char) (position : Position)
  | unexpected (terminal : String) (cs : List Char) (position : Position)
deriving DecidableEq

def Token.unexpected {α : Type} (t : Token) : Except SyntaxFault α :=
  .error (.unexpected t.lexeme.terminal t.lexeme.chars t.start)

structure NumeralError where
  fault : NumeralFault
  span : Span
deriving DecidableEq

/-- An expression with the text that it takes up, parentheses included. -/
structure Operand where
  expr : Expr
  extent : Extent
deriving DecidableEq

structure Waiting where
  left : Operand
  op : ArithOp
deriving DecidableEq

def Waiting.close (file : Option String) (w : Waiting) (right : Operand) : Operand :=
  let extent : Extent := ⟨w.left.extent.start, right.extent.stop⟩
  ⟨.binary (.known w.op) w.left.expr right.expr (extent.span file), extent⟩

structure Level where
  sum : Option Waiting := none
  product : Option Waiting := none
deriving DecidableEq

namespace Level

def closeProduct (file : Option String) (l : Level) (right : Operand) : Operand :=
  match l.product with
  | none => right
  | some w => w.close file right

def close (file : Option String) (l : Level) (right : Operand) : Operand :=
  match l.sum with
  | none => l.closeProduct file right
  | some w => w.close file (l.closeProduct file right)

def push (file : Option String) (l : Level) (op : ArithOp) (left : Operand) : Level :=
  match op with
  | .add | .sub => ⟨some ⟨l.close file left, op⟩, none⟩
  | .mul | .div => ⟨l.sum, some ⟨l.closeProduct file left, op⟩⟩

end Level

inductive Opening where
  | group (start : Position)
  | conversion (start : Position) (target : List Char)
deriving DecidableEq

structure Frame where
  level : Level
  opening : Opening
deriving DecidableEq

def Opening.close (file : Option String) (o : Opening) (inner : Operand) (stop : Position) :
    Operand :=
  match o with
  | group start => ⟨inner.expr, ⟨start, stop⟩⟩
  | conversion start target =>
    let extent : Extent := ⟨start, stop⟩
    ⟨.conversion (String.ofList target) inner.expr (extent.span file), extent⟩

inductive Focus where
  | start
  /-- A sign stands before a numeral that is due. -/
  | sign (start : Position)
  /-- A name, which a parenthesis makes the target of a conversion. -/
  | name (cs : List Char) (extent : Extent)
  | operand (o : Operand)
deriving DecidableEq

structure Pending where
  level : Level := {}
  frames : List Frame := []
  focus : Focus := .start
  fault : Option NumeralError := none
deriving DecidableEq

inductive Progress where
  | more (p : Pending)
  | done (o : Operand) (fault : Option NumeralError)
deriving DecidableEq

namespace Pending

/-- A numeral without a value is remembered and stands for an untyped literal. -/
def constant (file : Option String) (p : Pending) (c : Except NumeralFault Constant)
    (extent : Extent) : Pending :=
  let span := extent.span file
  match c with
  | .ok c => { p with focus := .operand ⟨.literal c.value (some c.ty) span, extent⟩ }
  | .error fault =>
    { p with
      focus := .operand ⟨.literal .null none span, extent⟩
      fault := p.fault <|> some ⟨fault, span⟩ }

def openWith (p : Pending) (opening : Opening) : Pending :=
  { p with level := {}, frames := ⟨p.level, opening⟩ :: p.frames, focus := .start }

def operator (file : Option String) (p : Pending) (op : ArithOp) (left : Operand) : Pending :=
  { p with level := p.level.push file op left, focus := .start }

def stepStart (file : Option String) (p : Pending) (t : Token) : Except SyntaxFault Progress :=
  match t.lexeme with
  | .symbol .minus => .ok (.more { p with focus := .sign t.start })
  | .symbol .lparen => .ok (.more (p.openWith (.group t.start)))
  | .word cs => .ok (.more { p with focus := .name cs t.extent })
  | .integer digits => .ok (.more (p.constant file (Numeral.integer digits) t.extent))
  | .decimal whole fraction =>
    .ok (.more (p.constant file (Numeral.decimal whole fraction) t.extent))
  | .hex digits => .ok (.more (p.constant file (Numeral.hex digits) t.extent))
  | _ => t.unexpected

def stepSign (file : Option String) (p : Pending) (start : Position) (t : Token) :
    Except SyntaxFault Progress :=
  let extent : Extent := ⟨start, t.stop⟩
  match t.lexeme with
  | .integer digits => .ok (.more (p.constant file (Numeral.negativeInteger digits) extent))
  | .decimal whole fraction =>
    .ok (.more (p.constant file (Numeral.negativeDecimal whole fraction) extent))
  | _ => t.unexpected

def stepOperand (file : Option String) (p : Pending) (o : Operand) (t : Token) :
    Except SyntaxFault Progress :=
  match t.lexeme with
  | .symbol .plus => .ok (.more (p.operator file .add o))
  | .symbol .minus => .ok (.more (p.operator file .sub o))
  | .symbol .star => .ok (.more (p.operator file .mul o))
  | .symbol .slash => .ok (.more (p.operator file .div o))
  | .symbol .rparen =>
    match p.frames with
    | [] => t.unexpected
    | frame :: frames =>
      let inner := frame.opening.close file (p.level.close file o) t.stop
      .ok (.more { p with level := frame.level, frames := frames, focus := .operand inner })
  | .symbol .semicolon =>
    match p.frames with
    | [] => .ok (.done (p.level.close file o) p.fault)
    | _ :: _ => t.unexpected
  | _ => t.unexpected

/-- A semicolon ends the expression when no parenthesis is open. -/
def step (file : Option String) (p : Pending) (t : Token) : Except SyntaxFault Progress :=
  match p.focus with
  | .start => p.stepStart file t
  | .sign start => p.stepSign file start t
  | .operand o => p.stepOperand file o t
  | .name cs extent =>
    match t.lexeme with
    | .symbol .lparen => .ok (.more (p.openWith (.conversion extent.start cs)))
    | _ => p.stepOperand file ⟨.name (String.ofList cs) (extent.span file), extent⟩ t

def expecting (p : Pending) : Expecting :=
  match p.focus with
  | .sign _ => .magnitude
  | _ => .sign

end Pending

end ContractGuard
