import ContractGuard.Syntax.Reader

/-!
# The grammar

Which lexemes spell which declarations. Each relation is between lexemes, the tree that
they spell, without its spans, and the faults of the numerals in it, in order. Sums and
products associate to the left, products bind tighter, and a sign stands only before a
numeral. Any word can be a name; only at the start of a statement `let` and `return` are
always reserved. The word `fn` stands apart from the name that follows it; the reader also
takes the two in one word, which the grammar does not.
-/

namespace ContractGuard

namespace Expr

def unspanned : Expr → Expr
  | literal value ty _ => literal value ty {}
  | name ident _ => name ident {}
  | binary op left right _ => binary op left.unspanned right.unspanned {}
  | conversion target arg _ => conversion target arg.unspanned {}
  | unsupported _ => unsupported {}

end Expr

def Stmt.unspanned : Stmt → Stmt
  | bind name value _ => bind name value.unspanned {}
  | ret value _ => ret (value.map Expr.unspanned) {}
  | eval value _ => eval value.unspanned {}
  | unsupported _ => unsupported {}

def Param.unspanned (p : Param) : Param := { p with span := {} }

def FunctionDecl.unspanned (d : FunctionDecl) : FunctionDecl :=
  { d with
    params := d.params.map Param.unspanned
    body := d.body.map Stmt.unspanned
    span := {} }

namespace Lexeme

def WellFormed : Lexeme → Prop
  | word cs => cs.head?.any isWordStart = true ∧ cs.all isWordChar = true
  | integer digits => digits ≠ [] ∧ digits.all Char.isDigit = true
  | decimal whole fraction =>
    (whole ≠ [] ∧ whole.all Char.isDigit = true) ∧ fraction ≠ [] ∧ fraction.all Char.isDigit = true
  | hex digits => digits ≠ [] ∧ digits.all isHexDigit = true
  | symbol _ => True

instance (l : Lexeme) : Decidable l.WellFormed := by
  cases l <;> simp only [WellFormed] <;> infer_instance

/-- An integer has few enough digits, and a hexadecimal numeral spells a byte string of
one of the lengths. -/
def Valued : Lexeme → Prop
  | integer digits => (digits.dropWhile (· = '0')).length ≤ 78
  | hex digits => digits.length % 2 = 0 ∧ digits.length / 2 ∈ [1, 2, 4, 8, 16, 32]
  | _ => True

instance (l : Lexeme) : Decidable l.Valued := by
  cases l <;> simp only [Valued] <;> infer_instance

def constant? : Lexeme → Option (Except NumeralFault Constant)
  | integer digits => some (Numeral.integer digits)
  | decimal whole fraction => some (Numeral.decimal whole fraction)
  | hex digits => some (Numeral.hex digits)
  | _ => none

def negated? : Lexeme → Option (Except NumeralFault Constant)
  | integer digits => some (Numeral.negativeInteger digits)
  | decimal whole fraction => some (Numeral.negativeDecimal whole fraction)
  | _ => none

/-- Words that never begin an expression where a statement begins. -/
def reserved : Lexeme → Bool
  | word ['l', 'e', 't'] => true
  | word ['r', 'e', 't', 'u', 'r', 'n'] => true
  | _ => false

end Lexeme

namespace Symbol

def sumOp? : Symbol → Option ArithOp
  | plus => some .add
  | minus => some .sub
  | _ => none

def productOp? : Symbol → Option ArithOp
  | star => some .mul
  | slash => some .div
  | _ => none

end Symbol

namespace Grammar

def constantTree : Except NumeralFault Constant → Expr
  | .ok c => .literal c.value (some c.ty) {}
  | .error _ => .literal .null none {}

def constantFaults : Except NumeralFault Constant → List NumeralFault
  | .ok _ => []
  | .error fault => [fault]

inductive Rank where
  | sum
  | product
  | unary
  | atom

inductive Expression : Rank → List Lexeme → Expr → List NumeralFault → Prop
  | sum {ls ms : List Lexeme} {s : Symbol} {op : ArithOp} {left right : Expr}
      {fs gs : List NumeralFault} :
      Expression .sum ls left fs → s.sumOp? = some op → Expression .product ms right gs →
      Expression .sum (ls ++ .symbol s :: ms) (.binary (.known op) left right {}) (fs ++ gs)
  | ofProduct {ls : List Lexeme} {e : Expr} {fs : List NumeralFault} :
      Expression .product ls e fs → Expression .sum ls e fs
  | product {ls ms : List Lexeme} {s : Symbol} {op : ArithOp} {left right : Expr}
      {fs gs : List NumeralFault} :
      Expression .product ls left fs → s.productOp? = some op → Expression .unary ms right gs →
      Expression .product (ls ++ .symbol s :: ms) (.binary (.known op) left right {}) (fs ++ gs)
  | ofUnary {ls : List Lexeme} {e : Expr} {fs : List NumeralFault} :
      Expression .unary ls e fs → Expression .product ls e fs
  | negative {l : Lexeme} {c : Except NumeralFault Constant} :
      l.negated? = some c →
      Expression .unary [.symbol .minus, l] (constantTree c) (constantFaults c)
  | ofAtom {ls : List Lexeme} {e : Expr} {fs : List NumeralFault} :
      Expression .atom ls e fs → Expression .unary ls e fs
  | constant {l : Lexeme} {c : Except NumeralFault Constant} :
      l.constant? = some c → Expression .atom [l] (constantTree c) (constantFaults c)
  | conversion {target : List Char} {ls : List Lexeme} {e : Expr} {fs : List NumeralFault} :
      Expression .sum ls e fs →
      Expression .atom (.word target :: .symbol .lparen :: ls ++ [.symbol .rparen])
        (.conversion (String.ofList target) e {}) fs
  | name (cs : List Char) : Expression .atom [.word cs] (.name (String.ofList cs) {}) []
  | group {ls : List Lexeme} {e : Expr} {fs : List NumeralFault} :
      Expression .sum ls e fs →
      Expression .atom (.symbol .lparen :: ls ++ [.symbol .rparen]) e fs

theorem Expression.begins {rank : Rank} {ls : List Lexeme} {e : Expr} {fs : List NumeralFault}
    (h : Expression rank ls e fs) :
    ∃ l rest, ls = l :: rest ∧ l ≠ .symbol .semicolon ∧ l ≠ .symbol .rbrace := by
  induction h with
  | sum _ _ _ ih | product _ _ _ ih =>
    obtain ⟨l, rest, rfl, hl⟩ := ih
    exact ⟨l, _, rfl, hl⟩
  | ofProduct _ ih | ofUnary _ ih | ofAtom _ ih => exact ih
  | negative _ | conversion _ _ | name _ | group _ _ => exact ⟨_, _, rfl, by simp, by simp⟩
  | @constant l c hc =>
    refine ⟨l, [], rfl, ?_, ?_⟩ <;> rintro rfl <;> cases hc

theorem Expression.ne_nil {rank : Rank} {ls : List Lexeme} {e : Expr} {fs : List NumeralFault}
    (h : Expression rank ls e fs) : ls ≠ [] := by
  obtain ⟨l, rest, rfl, _⟩ := h.begins
  exact List.cons_ne_nil l rest

inductive Statement : List Lexeme → Stmt → List NumeralFault → Prop
  | bind {name : List Char} {ls : List Lexeme} {e : Expr} {fs : List NumeralFault} :
      Expression .sum ls e fs →
      Statement
        (.word ['l', 'e', 't'] :: .word name :: .symbol .equals :: ls ++ [.symbol .semicolon])
        (.bind (String.ofList name) e {}) fs
  | ret :
      Statement [.word ['r', 'e', 't', 'u', 'r', 'n'], .symbol .semicolon] (.ret none {}) []
  | retValue {ls : List Lexeme} {e : Expr} {fs : List NumeralFault} :
      Expression .sum ls e fs →
      Statement (.word ['r', 'e', 't', 'u', 'r', 'n'] :: ls ++ [.symbol .semicolon])
        (.ret (some e) {}) fs
  | eval {ls : List Lexeme} {e : Expr} {fs : List NumeralFault} :
      Expression .sum ls e fs → ls.head?.any Lexeme.reserved = false →
      Statement (ls ++ [.symbol .semicolon]) (.eval e {}) fs

inductive Statements : List Lexeme → List Stmt → List NumeralFault → Prop
  | empty : Statements [] [] []
  | snoc {ls ms : List Lexeme} {stmts : List Stmt} {s : Stmt} {fs gs : List NumeralFault} :
      Statements ls stmts fs → Statement ms s gs →
      Statements (ls ++ ms) (stmts ++ [s]) (fs ++ gs)

inductive Attributes : List Lexeme → List RawAttribute → Prop
  | none : Attributes [] []
  | snoc {ls : List Lexeme} {attributes : List RawAttribute} {name : List Char} :
      Attributes ls attributes →
      Attributes (ls ++ [.symbol .at, .word name])
        (attributes ++ [.text (String.ofList name)])

theorem Attributes.eq_nil {ls : List Lexeme} {attributes : List RawAttribute}
    (h : Attributes ls attributes) (he : attributes = []) : ls = [] := by
  cases h with
  | none => rfl
  | snoc _ => simp at he

/-- The name of a function, as the grammar has it. -/
inductive Apart : List Lexeme → String → Prop
  | mk (name : List Char) : Apart [.word ['f', 'n'], .word name] (String.ofList name)

/-- The name of a function, as the reader takes it. -/
inductive Named : List Lexeme → String → Prop
  | apart (name : List Char) :
      Named [.word ['f', 'n'], .word name] (String.ofList name)
  | joined {c : Char} {cs : List Char} :
      Lexeme.isWordStart c = true → Named [.word ('f' :: 'n' :: c :: cs)] (String.ofList (c :: cs))

inductive SomeParams : List Lexeme → List Param → Prop
  | one (name ty : List Char) :
      SomeParams [.word name, .symbol .colon, .word ty]
        [⟨String.ofList name, String.ofList ty, {}⟩]
  | snoc {ls : List Lexeme} {params : List Param} {name ty : List Char} :
      SomeParams ls params →
      SomeParams (ls ++ [.symbol .comma, .word name, .symbol .colon, .word ty])
        (params ++ [⟨String.ofList name, String.ofList ty, {}⟩])

inductive Params : List Lexeme → List Param → Prop
  | none : Params [] []
  | some {ls : List Lexeme} {params : List Param} : SomeParams ls params → Params ls params

inductive Result : List Lexeme → Option String → Prop
  | none : Result [] none
  | some (ty : List Char) :
      Result [.symbol .arrow, .word ty] (some (String.ofList ty))

variable (named : List Lexeme → String → Prop)

inductive Declaration : List Lexeme → FunctionDecl → List NumeralFault → Prop
  | mk {as ns ps rs bs : List Lexeme} {attributes : List RawAttribute} {name : String}
      {params : List Param} {result : Option String} {stmts : List Stmt}
      {fs : List NumeralFault} :
      Attributes as attributes → named ns name → Params ps params → Result rs result →
      Statements bs stmts fs →
      Declaration (as ++ ns ++ .symbol .lparen :: ps ++ .symbol .rparen :: rs ++
          .symbol .lbrace :: bs ++ [.symbol .rbrace])
        ⟨name, attributes, params, result, stmts, {}⟩ fs

inductive Program : List Lexeme → List FunctionDecl → List NumeralFault → Prop
  | empty : Program [] [] []
  | snoc {ls ms : List Lexeme} {decls : List FunctionDecl} {d : FunctionDecl}
      {fs gs : List NumeralFault} :
      Program ls decls fs → Declaration named ms d gs → Program (ls ++ ms) (decls ++ [d]) (fs ++ gs)

end Grammar

end ContractGuard
