/-!
# Big-endian numbers
-/

namespace ContractGuard.BigEndian

def decode (bs : List UInt8) : Nat := bs.foldl (fun n b => 256 * n + b.toNat) 0

def count (length : Nat) : Nat := Nat.pow 256 length

/-- The first bit of the first byte is the sign, in two's complement. -/
def decodeSigned (bs : List UInt8) : Int :=
  if 2 * decode bs < count bs.length then decode bs else (decode bs : Int) - count bs.length

/-- The last `length` base-256 digits. -/
def encode : Nat → Nat → List UInt8
  | 0, _ => []
  | length + 1, n => encode length (n / 256) ++ [UInt8.ofNat n]

end ContractGuard.BigEndian
