import ContractGuard.Decimal.Basic

/-!
# Rounding to a context

A context bounds the number of digits and the exponents of a result. `fit` brings
an exact result into it, half to even; `quantize` moves a number to a given place
and refuses one that needs more digits than the context has.
-/

namespace ContractGuard

inductive Rounding where
  | halfEven
  | towardZero
deriving DecidableEq

inductive Signal where
  | invalidOperation
  | divisionByZero
  | overflow
deriving DecidableEq

def Rounding.drop (mode : Rounding) (n count : Nat) : Nat :=
  let kept := n / tenPow count
  let lost := n % tenPow count
  match mode with
  | .towardZero => kept
  | .halfEven =>
    if tenPow count < 2 * lost ∨ (2 * lost = tenPow count ∧ kept % 2 = 1) then kept + 1 else kept

structure Context where
  precision : Nat
  minExponent : Int
  maxExponent : Int
deriving DecidableEq

namespace Context

/-- Wide enough for every product of two 128-bit fixed-point numbers. -/
def wide : Context := ⟨96, -999999, 999999⟩

/-- The context in which a written number takes its sign. -/
def plain : Context := ⟨28, -999999, 999999⟩

def tiny (ctx : Context) : Int := ctx.minExponent - ctx.precision + 1

def top (ctx : Context) : Int := ctx.maxExponent - ctx.precision + 1

def fit (ctx : Context) (x : Scaled) : Except Signal Scaled :=
  if x.coefficient = 0 then
    .ok { x with exponent := min (max x.exponent ctx.tiny) ctx.maxExponent }
  else if ctx.top < digitCount x.coefficient + x.exponent - ctx.precision then
    .error .overflow
  else
    let place := max (digitCount x.coefficient + x.exponent - ctx.precision) ctx.tiny
    if place ≤ x.exponent then .ok x
    else
      let kept := Rounding.halfEven.drop x.coefficient (place - x.exponent).toNat
      if digitCount kept ≤ ctx.precision then .ok ⟨x.negative, kept, place⟩
      else if ctx.top < place + 1 then .error .overflow
      else .ok ⟨x.negative, kept / 10, place + 1⟩

/-- A signalling operand has no result; a quiet one is the result itself. -/
def quiet (ctx : Context) : Decimal → Except Signal Decimal
  | .nan false negative payload => .ok (.nan false negative (payload % tenPow ctx.precision))
  | _ => .error .invalidOperation

/-- The number with its last digit at `place`; digits beyond it are rounded away. -/
def rescale (mode : Rounding) (x : Scaled) (place : Int) : Scaled :=
  if place ≤ x.exponent then
    ⟨x.negative, x.coefficient * tenPow (x.exponent - place).toNat, place⟩
  else ⟨x.negative, mode.drop x.coefficient (place - x.exponent).toNat, place⟩

def quantizeFinite (ctx : Context) (mode : Rounding) (x : Scaled) (place : Int) :
    Except Signal Scaled :=
  if place < ctx.tiny ∨ ctx.maxExponent < place then .error .invalidOperation
  else if x.coefficient = 0 then .ok ⟨x.negative, 0, place⟩
  else if ctx.precision < digitCount x.coefficient + x.exponent - place then
    .error .invalidOperation
  else
    let moved := rescale mode x place
    if ctx.precision < digitCount moved.coefficient ∨
        ctx.maxExponent < digitCount moved.coefficient + place - 1 then
      .error .invalidOperation
    else .ok moved

def quantize (ctx : Context) (mode : Rounding) (x : Decimal) (place : Int) :
    Except Signal Decimal :=
  match x with
  | .finite x => return .finite (← ctx.quantizeFinite mode x place)
  | .infinite _ => .error .invalidOperation
  | .nan .. => ctx.quiet x

def placeOf (ctx : Context) (scale : Int) : Except Signal Int :=
  if 2 * (ctx.maxExponent + ctx.precision) < scale.natAbs then .error .invalidOperation
  else return (← ctx.fit ⟨false, 1, -scale⟩).exponent

end Context

end ContractGuard
