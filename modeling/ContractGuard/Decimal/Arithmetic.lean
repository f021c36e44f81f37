import ContractGuard.Decimal.Context

/-!
# Decimal arithmetic

Each operation is exact on finite numbers and then fitted to a context. A quotient
is cut off two digits beyond the context, with a nonzero last digit standing for
what was cut, so that fitting it rounds the true quotient.
-/

namespace ContractGuard

namespace Scaled

def add (x y : Scaled) : Scaled :=
  let place := min x.exponent y.exponent
  let total := x.on place + y.on place
  ⟨if total = 0 then x.negative && y.negative else decide (total < 0), total.natAbs, place⟩

def mul (x y : Scaled) : Scaled :=
  ⟨x.negative != y.negative, x.coefficient * y.coefficient, x.exponent + y.exponent⟩

def stripZeros : Nat → Nat → Int → Nat × Int
  | 0, n, place => (n, place)
  | count + 1, n, place =>
    if n % 10 = 0 then stripZeros count (n / 10) (place + 1) else (n, place)

/-- An exact quotient takes the place `x.exponent - y.exponent` when it can. -/
def div (precision : Nat) (x y : Scaled) : Scaled :=
  let negative := x.negative != y.negative
  let ideal := x.exponent - y.exponent
  if x.coefficient = 0 then ⟨negative, 0, ideal⟩
  else
    let shift : Int := digitCount y.coefficient - digitCount x.coefficient + precision + 1
    let numerator := x.coefficient * tenPow shift.toNat
    let denominator := y.coefficient * tenPow (-shift).toNat
    let quotient := numerator / denominator
    if numerator % denominator = 0 then
      let (stripped, place) := stripZeros shift.toNat quotient (ideal - shift)
      ⟨negative, stripped, place⟩
    else ⟨negative, if quotient % 5 = 0 then quotient + 1 else quotient, ideal - shift⟩

end Scaled

namespace Decimal

/-- The undefined operand that an operation hands on: a signalling one first. -/
def undefined (x y : Decimal) : Decimal :=
  match x, y with
  | .nan true .., _ => x
  | _, .nan true .. => y
  | .nan .., _ => x
  | _, _ => y

def add (ctx : Context) (x y : Decimal) : Except Signal Decimal :=
  match x, y with
  | .finite a, .finite b => return .finite (← ctx.fit (a.add b))
  | .infinite s, .infinite t => if s = t then .ok x else .error .invalidOperation
  | .infinite _, .finite _ => .ok x
  | .finite _, .infinite _ => .ok y
  | _, _ => ctx.quiet (undefined x y)

def flip : Decimal → Decimal
  | .finite x => .finite x.flip
  | .infinite negative => .infinite !negative
  | undefined => undefined

def sub (ctx : Context) (x y : Decimal) : Except Signal Decimal := x.add ctx y.flip

def mul (ctx : Context) (x y : Decimal) : Except Signal Decimal :=
  match x, y with
  | .finite a, .finite b => return .finite (← ctx.fit (a.mul b))
  | .infinite s, .infinite t => .ok (.infinite (s != t))
  | .infinite s, .finite b =>
    if b.coefficient = 0 then .error .invalidOperation else .ok (.infinite (s != b.negative))
  | .finite a, .infinite t =>
    if a.coefficient = 0 then .error .invalidOperation else .ok (.infinite (a.negative != t))
  | _, _ => ctx.quiet (undefined x y)

def div (ctx : Context) (x y : Decimal) : Except Signal Decimal :=
  match x, y with
  | .finite a, .finite b =>
    if b.coefficient = 0 then
      .error (if a.coefficient = 0 then .invalidOperation else .divisionByZero)
    else return .finite (← ctx.fit (a.div ctx.precision b))
  | .infinite _, .infinite _ => .error .invalidOperation
  | .infinite s, .finite b => .ok (.infinite (s != b.negative))
  | .finite a, .infinite t => .ok (.finite ⟨a.negative != t, 0, ctx.tiny⟩)
  | _, _ => ctx.quiet (undefined x y)

/-- The fitted opposite; the opposite of zero is the positive zero. -/
def neg (ctx : Context) (x : Decimal) : Except Signal Decimal :=
  match x with
  | .finite a =>
    return .finite (← ctx.fit (if a.coefficient = 0 then { a with negative := false } else a.flip))
  | .infinite negative => .ok (.infinite !negative)
  | .nan .. => ctx.quiet x

end Decimal

end ContractGuard
