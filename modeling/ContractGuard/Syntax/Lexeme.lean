/-!
# Lexemes

The text of a declaration falls into words, numerals and symbols, each as long as
possible, with blanks and comments between them. What can come next matters in
three places: where a declaration starts, the word `fn` ends after its two letters;
where a sign is possible, a minus never begins an arrow; and after a sign a numeral
is never hexadecimal. Only ASCII letters and digits belong to words and numerals.
-/

namespace ContractGuard

/-- Lines and columns count from one; a column is a character. -/
structure Position where
  line : Nat
  column : Nat
deriving DecidableEq

namespace Position

def first : Position := ⟨1, 1⟩

def step (p : Position) (c : Char) : Position :=
  if c = '\n' then ⟨p.line + 1, 1⟩ else ⟨p.line, p.column + 1⟩

def after (p : Position) (cs : List Char) : Position := cs.foldl step p

end Position

inductive Symbol where
  | at
  | lparen
  | rparen
  | lbrace
  | rbrace
  | colon
  | comma
  | semicolon
  | equals
  | plus
  | minus
  | star
  | slash
  | arrow
deriving DecidableEq

namespace Symbol

def ofChar? : Char → Option Symbol
  | '@' => some .at
  | '(' => some lparen
  | ')' => some rparen
  | '{' => some lbrace
  | '}' => some rbrace
  | ':' => some colon
  | ',' => some comma
  | ';' => some semicolon
  | '=' => some equals
  | '+' => some plus
  | '-' => some minus
  | '*' => some star
  | '/' => some slash
  | _ => none

def chars : Symbol → List Char
  | .at => ['@']
  | lparen => ['(']
  | rparen => [')']
  | lbrace => ['{']
  | rbrace => ['}']
  | colon => [':']
  | comma => [',']
  | semicolon => [';']
  | equals => ['=']
  | plus => ['+']
  | minus => ['-']
  | star => ['*']
  | slash => ['/']
  | arrow => ['-', '>']

def terminal : Symbol → String
  | .at => "AT"
  | lparen => "LPAR"
  | rparen => "RPAR"
  | lbrace => "LBRACE"
  | rbrace => "RBRACE"
  | colon => "COLON"
  | comma => "COMMA"
  | semicolon => "SEMICOLON"
  | equals => "EQUAL"
  | plus => "PLUS"
  | minus => "MINUS"
  | star => "STAR"
  | slash => "SLASH"
  | arrow => "__ANON_0"

end Symbol

inductive Lexeme where
  | word (cs : List Char)
  | integer (digits : List Char)
  | decimal (whole fraction : List Char)
  | hex (digits : List Char)
  | symbol (s : Symbol)
deriving DecidableEq

inductive Expecting where
  | declaration
  | sign
  | magnitude
  | other
deriving DecidableEq

namespace Lexeme

def isWordStart (c : Char) : Bool := c.isAlpha || c = '_'

def isWordChar (c : Char) : Bool := c.isAlphanum || c = '_'

def isHexDigit (c : Char) : Bool :=
  c.isDigit || ('a' ≤ c && c ≤ 'f') || ('A' ≤ c && c ≤ 'F')

def isBlank (c : Char) : Bool :=
  c = ' ' || c = '\t' || c = '\n' || c = '\r' || c = '\x0c'

def functionWord : List Char := ['f', 'n']

def chars : Lexeme → List Char
  | word cs => cs
  | integer digits => digits
  | decimal whole fraction => whole ++ '.' :: fraction
  | hex digits => '0' :: 'x' :: digits
  | symbol s => s.chars

/-- The name of the class of a lexeme in messages; a reserved word is a class. -/
def terminal : Lexeme → String
  | word ['f', 'n'] => "FN"
  | word ['l', 'e', 't'] => "LET"
  | word ['r', 'e', 't', 'u', 'r', 'n'] => "RETURN"
  | word _ => "NAME"
  | integer _ => "INT"
  | decimal .. => "DECIMAL"
  | hex _ => "HEX"
  | symbol s => s.terminal

def readWord (expecting : Expecting) (cs : List Char) : Lexeme × List Char :=
  if expecting = .declaration ∧ functionWord.isPrefixOf cs then
    (word functionWord, cs.drop functionWord.length)
  else (word (cs.takeWhile isWordChar), cs.dropWhile isWordChar)

/-- Digits, with a fraction if a point and a digit follow them. -/
def readPlainNumeral (cs : List Char) : Lexeme × List Char :=
  let digits := cs.takeWhile Char.isDigit
  let rest := cs.dropWhile Char.isDigit
  match rest with
  | '.' :: d :: tail =>
    if d.isDigit then
      (decimal digits (d :: tail.takeWhile Char.isDigit), tail.dropWhile Char.isDigit)
    else (integer digits, rest)
  | _ => (integer digits, rest)

def readNumeral (expecting : Expecting) (cs : List Char) : Lexeme × List Char :=
  match cs with
  | '0' :: 'x' :: d :: tail =>
    if expecting ≠ .magnitude ∧ isHexDigit d then
      (hex (d :: tail.takeWhile isHexDigit), tail.dropWhile isHexDigit)
    else readPlainNumeral cs
  | _ => readPlainNumeral cs

def readSymbol? (expecting : Expecting) (c : Char) (rest : List Char) :
    Option (Lexeme × List Char) :=
  match c, rest with
  | '-', '>' :: tail =>
    if expecting = .sign then some (symbol .minus, rest) else some (symbol .arrow, tail)
  | _, _ => (Symbol.ofChar? c).map fun s => (symbol s, rest)

def read? (expecting : Expecting) (c : Char) (rest : List Char) : Option (Lexeme × List Char) :=
  if isWordStart c then some (readWord expecting (c :: rest))
  else if c.isDigit then some (readNumeral expecting (c :: rest))
  else readSymbol? expecting c rest

/-- Skips blanks and comments, a comment up to the end of its line. -/
def skipLayout (p : Position) (inComment : Bool) : List Char → Position × List Char
  | [] => (p, [])
  | '/' :: '/' :: rest =>
    skipLayout ((p.step '/').step '/') true rest
  | c :: rest =>
    if inComment then skipLayout (p.step c) (c ≠ '\n') rest
    else if isBlank c then skipLayout (p.step c) false rest
    else (p, c :: rest)

end Lexeme

structure Token where
  lexeme : Lexeme
  start : Position
  stop : Position
deriving DecidableEq

end ContractGuard
