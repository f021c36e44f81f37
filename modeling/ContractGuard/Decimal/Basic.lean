/-!
# Decimal numbers

A finite decimal is a signed coefficient times a power of ten; trailing zeros are
part of it, so `1.5` and `1.50` differ as decimals and agree as numbers. Besides
the finite ones there are two infinities and the results of undefined operations.
-/

namespace ContractGuard

/-- The number `± coefficient · 10 ^ exponent`; zero keeps a sign. -/
structure Scaled where
  negative : Bool
  coefficient : Nat
  exponent : Int
deriving DecidableEq

inductive Decimal where
  | finite (x : Scaled)
  | infinite (negative : Bool)
  /-- An undefined result; a signalling one refuses every further operation. -/
  | nan (signaling negative : Bool) (payload : Nat)
deriving DecidableEq

def tenPow (n : Nat) : Nat := Nat.pow 10 n

/-- The first digit of `n` and the number of digits after it. Two digits are one digit to
the square of the base, so even a long number is divided only a few times. -/
def firstDigit (n : Nat) : Nat → Nat → Nat × Nat
  | 0, _ => (n, 0)
  | fuel + 1, base =>
    if n < base then (n, 0)
    else
      let (digit, after) := firstDigit n fuel (base * base)
      if digit < base then (digit, 2 * after) else (digit / base, 2 * after + 1)

def digitCount (n : Nat) : Nat := (firstDigit n n 10).2 + 1

namespace Scaled

def ofInt (n : Int) : Scaled := ⟨decide (n < 0), n.natAbs, 0⟩

def signed (x : Scaled) : Int := if x.negative then -(x.coefficient : Int) else x.coefficient

def flip (x : Scaled) : Scaled := { x with negative := !x.negative }

/-- The coefficient that the number has on a grid at least as fine as its own. -/
def on (x : Scaled) (place : Int) : Int := x.signed * tenPow (x.exponent - place).toNat

/-- Orders `a · 10 ^ i` and `b · 10 ^ j`. The places of the leading digits decide,
so numbers far apart are never brought to one scale. -/
def compareMagnitude (a : Nat) (i : Int) (b : Nat) (j : Int) : Ordering :=
  if a = 0 ∨ b = 0 then compare a b
  else match compare (digitCount a + i) (digitCount b + j) with
    | .eq => compare (a * tenPow (i - j).toNat) (b * tenPow (j - i).toNat)
    | order => order

def isNegative (x : Scaled) : Bool := x.negative && x.coefficient != 0

def order (x y : Scaled) : Ordering :=
  match x.isNegative, y.isNegative with
  | true, false => .lt
  | false, true => .gt
  | false, false => compareMagnitude x.coefficient x.exponent y.coefficient y.exponent
  | true, true => compareMagnitude y.coefficient y.exponent x.coefficient x.exponent

def le (x y : Scaled) : Bool := (x.order y).isLE

def same (x y : Scaled) : Bool := x.order y == .eq

def truncate (x : Scaled) : Int :=
  let whole := if 0 ≤ x.exponent then x.coefficient * tenPow x.exponent.toNat
    else x.coefficient / tenPow (-x.exponent).toNat
  if x.negative then -(whole : Int) else whole

def hasFraction (x : Scaled) : Bool :=
  x.exponent < 0 && x.coefficient % tenPow (-x.exponent).toNat != 0

end Scaled

namespace Decimal

def ofInt (n : Int) : Decimal := .finite (.ofInt n)

def isZero : Decimal → Bool
  | .finite x => x.coefficient == 0
  | _ => false

end Decimal

end ContractGuard
