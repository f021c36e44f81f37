import ContractGuard.Text.Hidden

/-!
# Quoted texts and byte strings

A quoted text is one line between apostrophes, or between double quotes when it
holds an apostrophe and no double quote. The mark, the backslash and characters
without a visible form are escaped, so the quoted form determines the text.
-/

namespace ContractGuard.Text

def apostrophe : Char := '\x27'

def doubleQuote : Char := '\x22'

def backslash : Char := '\x5c'

def markFor (cs : List Char) : Char :=
  if cs.contains apostrophe && !cs.contains doubleQuote then doubleQuote else apostrophe

def hexDigits (width n : Nat) : List Char :=
  let digits := Nat.toDigits 16 n
  List.replicate (width - digits.length) '0' ++ digits

def escapeCode (n : Nat) : List Char :=
  if n < 0x100 then backslash :: 'x' :: hexDigits 2 n
  else if n < 0x10000 then backslash :: 'u' :: hexDigits 4 n
  else backslash :: 'U' :: hexDigits 8 n

def escape (mark c : Char) : List Char :=
  if c = mark ∨ c = backslash then [backslash, c]
  else if c = '\t' then [backslash, 't']
  else if c = '\n' then [backslash, 'n']
  else if c = '\r' then [backslash, 'r']
  else if isHidden c then escapeCode c.toNat
  else [c]

def quotedChars (cs : List Char) : List Char :=
  let mark := markFor cs
  mark :: (cs.flatMap (escape mark) ++ [mark])

def quoted (s : String) : String := String.ofList (quotedChars s.toList)

/-- The character that stands for a byte; a byte beyond ASCII has no visible one. -/
def escapeByte (mark : Char) (b : UInt8) : List Char :=
  if b.toNat < 128 then escape mark (Char.ofNat b.toNat) else escapeCode b.toNat

def quotedBytes (bs : List UInt8) : String :=
  let mark := markFor ((bs.filter (·.toNat < 128)).map fun b => Char.ofNat b.toNat)
  String.ofList ('b' :: mark :: (bs.flatMap (escapeByte mark) ++ [mark]))

def hexBytes (bs : List UInt8) : String :=
  String.ofList (bs.flatMap fun b => hexDigits 2 b.toNat)

end ContractGuard.Text
