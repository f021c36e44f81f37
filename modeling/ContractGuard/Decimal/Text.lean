import ContractGuard.Decimal.Basic

/-!
# The text of a decimal

The text shows every digit of the coefficient, so it determines the decimal. It is
positional when no digit lies left of the units' place unwritten and at most five
zeros follow the point, and scientific otherwise.
-/

namespace ContractGuard

namespace Scaled

def exponentText (n : Int) : List Char :=
  (if n < 0 then '-' else '+') :: Nat.toDigits 10 n.natAbs

/-- The digits with a point after the first `point` of them. -/
def positional (digits : List Char) (point : Int) : List Char :=
  if point ≤ 0 then '0' :: '.' :: (List.replicate (-point).toNat '0' ++ digits)
  else if point.toNat < digits.length then
    digits.take point.toNat ++ '.' :: digits.drop point.toNat
  else digits

def scientific (digits : List Char) (point : Int) : List Char :=
  let mantissa := match digits with
    | lead :: next :: rest => lead :: '.' :: next :: rest
    | short => short
  mantissa ++ 'E' :: exponentText (point - 1)

def chars (x : Scaled) : List Char :=
  let digits := Nat.toDigits 10 x.coefficient
  let point := digits.length + x.exponent
  let body := if x.exponent ≤ 0 ∧ -6 < point then positional digits point
    else scientific digits point
  if x.negative then '-' :: body else body

end Scaled

namespace Decimal

def chars : Decimal → List Char
  | .finite x => x.chars
  | .infinite negative => (if negative then ['-'] else []) ++ "Infinity".toList
  | .nan signaling negative payload =>
    (if negative then ['-'] else []) ++ (if signaling then ['s'] else []) ++ "NaN".toList ++
      (if payload = 0 then [] else Nat.toDigits 10 payload)

def text (x : Decimal) : String := String.ofList x.chars

def splitSign : List Char → Bool × List Char
  | '-' :: rest => (true, rest)
  | '+' :: rest => (false, rest)
  | rest => (false, rest)

def isDigits (cs : List Char) : Bool := cs.all Char.isDigit

def readExponent? : List Char → Option Int
  | [] => some 0
  | 'e' :: rest =>
    let (negative, digits) := splitSign rest
    if digits.isEmpty || !isDigits digits then none
    else
      let n : Int := Nat.ofDigitChars 10 digits 0
      some (if negative then -n else n)
  | _ => none

def readFinite? (negative : Bool) (cs : List Char) : Option Decimal :=
  let whole := cs.takeWhile Char.isDigit
  let rest := cs.dropWhile Char.isDigit
  let (fraction, rest) := match rest with
    | '.' :: tail => (tail.takeWhile Char.isDigit, tail.dropWhile Char.isDigit)
    | _ => ([], rest)
  if whole.isEmpty && fraction.isEmpty then none
  else do
    let exponent ← readExponent? rest
    return .finite ⟨negative, Nat.ofDigitChars 10 (whole ++ fraction) 0, exponent - fraction.length⟩

def readNan? (signaling negative : Bool) (digits : List Char) : Option Decimal :=
  if isDigits digits then some (.nan signaling negative (Nat.ofDigitChars 10 digits 0)) else none

def ofChars? (cs : List Char) : Option Decimal :=
  let (negative, body) := splitSign cs
  match body with
  | 's' :: 'n' :: 'a' :: 'n' :: digits => readNan? true negative digits
  | 'n' :: 'a' :: 'n' :: digits => readNan? false negative digits
  | _ =>
    if body = "inf".toList ∨ body = "infinity".toList then some (.infinite negative)
    else readFinite? negative body

def isSpace (c : Char) : Bool :=
  c = ' ' || ('\t' ≤ c && c ≤ '\r') || ('\x1c' ≤ c && c ≤ '\x1f')

def trim (cs : List Char) : List Char :=
  ((cs.dropWhile isSpace).reverse.dropWhile isSpace).reverse

/-- Letters count in either case, and underscores may separate digits. -/
def ofText? (s : String) : Option Decimal :=
  ofChars? (((trim s.toList).filter (· ≠ '_')).map Char.toLower)

end Decimal

end ContractGuard
