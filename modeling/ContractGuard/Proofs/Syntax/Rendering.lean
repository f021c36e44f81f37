import ContractGuard.Proofs.Syntax.Acceptance
import ContractGuard.Proofs.Syntax.Numeral

/-!
# Rendering declarations

Declarations that a text can hold are rendered with parentheses where the precedence of the
operators needs them, and anywhere else one likes. However the lexemes are laid out, the
text is read as the declarations that were rendered.
-/

namespace ContractGuard

open Grammar

def Identifier (s : String) : Prop :=
  (Lexeme.word s.toList).WellFormed ∧ s ∉ ["fn", "let", "return"]

instance (s : String) : Decidable (Identifier s) := inferInstanceAs (Decidable (_ ∧ _))

namespace Payload

/-- The literals of a text. A negative decimal has at most the digits of the context of its
sign, and one without places has all of them. -/
def Readable (ty : ScalarType) : Payload → Prop
  | int n => (ty = .uint 256 ∧ 0 ≤ n ∧ n < 10 ^ 78) ∨ (ty = .int 256 ∧ -10 ^ 78 < n ∧ n ≤ 0)
  | decimal (.finite x) =>
    ty = .fixed ∧
      if x.negative then
        x.coefficient ≠ 0 ∧ x.coefficient < 10 ^ 28 ∧ Context.plain.tiny ≤ x.exponent ∧
          x.exponent ≤ Context.plain.top ∧ (x.exponent < 0 ∨ 10 ^ 27 ≤ x.coefficient)
      else x.exponent < 0
  | bytes bs => ty = .byteString bs.length ∧ bs.length ∈ ScalarType.byteWidths
  | _ => False

end Payload

def Scaled.numeral (x : Scaled) : Lexeme :=
  if x.exponent < 0 then
    .decimal (Numeral.whole x.coefficient (-x.exponent).toNat)
      (Numeral.fraction x.coefficient (-x.exponent).toNat)
  else
    .decimal (Numeral.whole (x.coefficient * tenPow (x.exponent.toNat + 1)) 1)
      (Numeral.fraction (x.coefficient * tenPow (x.exponent.toNat + 1)) 1)

def Payload.spelling (ty : ScalarType) : Payload → Rank × List Lexeme
  | int n =>
    let numeral := Lexeme.integer (Nat.toDigits 10 n.natAbs)
    if ty.signed then (.unary, [.symbol .minus, numeral]) else (.atom, [numeral])
  | decimal (.finite x) =>
    if x.negative then (.unary, [.symbol .minus, x.numeral]) else (.atom, [x.numeral])
  | bytes bs => (.atom, [.hex (Numeral.hexPairs bs)])
  | _ => (.atom, [])

namespace Expr

def Readable : Expr → Prop
  | literal value ty _ => ∃ t, ty = some t ∧ value.Readable t
  | name ident _ => Identifier ident
  | binary op left right _ => (∃ known, op = .known known) ∧ left.Readable ∧ right.Readable
  | conversion target arg _ => Identifier target ∧ arg.Readable
  | unsupported _ => False

inductive Renders : Rank → Expr → List Lexeme → Prop
  | sum {ls ms : List Lexeme} {s : Symbol} {op : ArithOp} {left right : Expr} {span : Span} :
      s.sumOp? = some op → Renders .sum left ls → Renders .product right ms →
      Renders .sum (.binary (.known op) left right span) (ls ++ .symbol s :: ms)
  | ofProduct {ls : List Lexeme} {e : Expr} : Renders .product e ls → Renders .sum e ls
  | product {ls ms : List Lexeme} {s : Symbol} {op : ArithOp} {left right : Expr} {span : Span} :
      s.productOp? = some op → Renders .product left ls → Renders .unary right ms →
      Renders .product (.binary (.known op) left right span) (ls ++ .symbol s :: ms)
  | ofUnary {ls : List Lexeme} {e : Expr} : Renders .unary e ls → Renders .product e ls
  | ofAtom {ls : List Lexeme} {e : Expr} : Renders .atom e ls → Renders .unary e ls
  | literal (value : Payload) (ty : ScalarType) (span : Span) :
      Renders (value.spelling ty).1 (.literal value (some ty) span) (value.spelling ty).2
  | name (ident : String) (span : Span) : Renders .atom (.name ident span) [.word ident.toList]
  | conversion {ls : List Lexeme} {target : String} {arg : Expr} {span : Span} :
      Renders .sum arg ls →
      Renders .atom (.conversion target arg span)
        (.word target.toList :: .symbol .lparen :: ls ++ [.symbol .rparen])
  | group {ls : List Lexeme} {e : Expr} :
      Renders .sum e ls → Renders .atom e (.symbol .lparen :: ls ++ [.symbol .rparen])

end Expr

namespace Stmt

def Readable : Stmt → Prop
  | bind name value _ => Identifier name ∧ value.Readable
  | ret value _ => ∀ e ∈ value, e.Readable
  | eval value _ => value.Readable
  | unsupported _ => False

inductive Renders : Stmt → List Lexeme → Prop
  | bind {ls : List Lexeme} {name : String} {value : Expr} {span : Span} :
      value.Renders .sum ls →
      Renders (.bind name value span)
        (.word ['l', 'e', 't'] :: .word name.toList :: .symbol .equals :: ls ++
          [.symbol .semicolon])
  | ret {span : Span} :
      Renders (.ret none span) [.word ['r', 'e', 't', 'u', 'r', 'n'], .symbol .semicolon]
  | retValue {ls : List Lexeme} {value : Expr} {span : Span} :
      value.Renders .sum ls →
      Renders (.ret (some value) span)
        (.word ['r', 'e', 't', 'u', 'r', 'n'] :: ls ++ [.symbol .semicolon])
  | eval {ls : List Lexeme} {value : Expr} {span : Span} :
      value.Renders .sum ls → Renders (.eval value span) (ls ++ [.symbol .semicolon])

end Stmt

inductive RenderEach {α : Type} (renders : α → List Lexeme → Prop) : List α → List Lexeme → Prop
  | nil : RenderEach renders [] []
  | cons {x : α} {xs : List α} {ls ms : List Lexeme} :
      renders x ls → RenderEach renders xs ms → RenderEach renders (x :: xs) (ls ++ ms)

def RawAttribute.lexemes (a : RawAttribute) : List Lexeme := [.symbol .at, .word a.shown.toList]

namespace Param

def lexemes (p : Param) : List Lexeme :=
  [.word p.name.toList, .symbol .colon, .word p.typeName.toList]

def listed : List Param → List Lexeme
  | [] => []
  | p :: ps => p.lexemes ++ ps.flatMap fun p => .symbol .comma :: p.lexemes

end Param

namespace FunctionDecl

structure Readable (d : FunctionDecl) : Prop where
  attributes : ∀ a ∈ d.attributes, ∃ s, a = .text s ∧ Identifier s
  name : Identifier d.name
  params : ∀ p ∈ d.params, Identifier p.name ∧ Identifier p.typeName
  returnType : ∀ ty ∈ d.returnType, Identifier ty
  body : ∀ stmt ∈ d.body, stmt.Readable

def result (d : FunctionDecl) : List Lexeme :=
  match d.returnType with
  | none => []
  | some ty => [.symbol .arrow, .word ty.toList]

inductive Renders (d : FunctionDecl) : List Lexeme → Prop
  | mk {bs : List Lexeme} : RenderEach Stmt.Renders d.body bs →
      Renders d (d.attributes.flatMap RawAttribute.lexemes ++
        [.word ['f', 'n'], .word d.name.toList] ++ .symbol .lparen :: Param.listed d.params ++
        .symbol .rparen :: d.result ++ .symbol .lbrace :: bs ++ [.symbol .rbrace])

end FunctionDecl

variable {ls ms : List Lexeme} {e : Expr} {rank : Rank} {value : Payload} {ty : ScalarType}

theorem Scaled.numeral_wellFormed (x : Scaled) : x.numeral.WellFormed := by
  simp only [numeral]
  split
  · exact Numeral.decimal_wellFormed _ (by omega)
  · exact Numeral.decimal_wellFormed _ (by omega)

theorem Scaled.numeral_constant? {x : Scaled} (hx : x.negative = false) (h : x.exponent < 0) :
    x.numeral.constant? = some (.ok ⟨.decimal (.finite x), .fixed⟩) := by
  have hplaces : -((-x.exponent).toNat : ℤ) = x.exponent := by omega
  have hdecimal := Numeral.decimalOf_whole_fraction x.coefficient (-x.exponent).toNat
  rw [hplaces, ← hx] at hdecimal
  simp only [numeral, if_pos h, Lexeme.constant?, Numeral.decimal, hdecimal]

theorem Scaled.numeral_negated? {x : Scaled} (hx : x.negative = true) (hc : x.coefficient ≠ 0)
    (hdigits : x.coefficient < 10 ^ 28) (hlow : Context.plain.tiny ≤ x.exponent)
    (hhigh : x.exponent ≤ Context.plain.top) (hplaces : x.exponent < 0 ∨ 10 ^ 27 ≤ x.coefficient) :
    x.numeral.negated? = some (.ok ⟨.decimal (.finite x), .fixed⟩) := by
  obtain ⟨negative, c, exponent⟩ := x
  obtain rfl : negative = true := hx
  by_cases h : exponent < 0
  · have hexponent : -((-exponent).toNat : ℤ) = exponent := by omega
    have hdecimal := Numeral.decimalOf_whole_fraction c (-exponent).toNat
    rw [hexponent] at hdecimal
    have hfit := Numeral.fit_plain (x := ⟨true, c, exponent⟩) hc hdigits hlow hhigh
    simp only [numeral, if_pos h, Lexeme.negated?]
    rw [Numeral.negativeDecimal_eq_ok hdecimal hc hfit]
  · have hexponent : (exponent.toNat : ℤ) = exponent := by omega
    have hdecimal := Numeral.decimalOf_whole_fraction (c * tenPow (exponent.toNat + 1)) 1
    have hcoarse : 10 ^ 27 ≤ c := hplaces.resolve_left h
    have hfit := Numeral.fit_plain_zeros true hcoarse hdigits (hexponent ▸ hhigh)
    rw [hexponent] at hfit
    have hne : c * tenPow (exponent.toNat + 1) ≠ 0 := Nat.mul_ne_zero hc (tenPow_pos _).ne'
    simp only [numeral, if_neg h, Lexeme.negated?]
    rw [Numeral.negativeDecimal_eq_ok hdecimal hne hfit]

theorem Payload.spelling_derives (h : value.Readable ty) :
    Expression (value.spelling ty).1 (value.spelling ty).2 (.literal value (some ty) {}) [] := by
  cases value with
  | int n =>
    rcases h with ⟨rfl, hlow, hhigh⟩ | ⟨rfl, hlow, hhigh⟩
    · have hn : (n.natAbs : ℤ) = n := by omega
      have hinteger := Numeral.integer_toDigits (n := n.natAbs) (by omega)
      rw [hn] at hinteger
      have hconstant : (Lexeme.integer (Nat.toDigits 10 n.natAbs)).constant? = _ :=
        congrArg some hinteger
      exact .constant hconstant
    · have hn : -(n.natAbs : ℤ) = n := by omega
      have hinteger := Numeral.negativeInteger_toDigits (n := n.natAbs) (by omega)
      rw [hn] at hinteger
      have hnegated : (Lexeme.integer (Nat.toDigits 10 n.natAbs)).negated? = _ :=
        congrArg some hinteger
      exact .negative hnegated
  | decimal d =>
    cases d with
    | finite x =>
      obtain ⟨rfl, hx⟩ := h
      simp only [spelling]
      split at hx
      · next hnegative =>
        obtain ⟨hc, hdigits, hlow, hhigh, hplaces⟩ := hx
        rw [if_pos hnegative]
        exact .negative (Scaled.numeral_negated? hnegative hc hdigits hlow hhigh hplaces)
      · next hnegative =>
        rw [if_neg hnegative]
        exact .constant (Scaled.numeral_constant? (by simpa using hnegative) hx)
    | infinite negative => exact h.elim
    | nan signaling negative payload => exact h.elim
  | bytes bs =>
    obtain ⟨rfl, hwidth⟩ := h
    have hconstant : (Lexeme.hex (Numeral.hexPairs bs)).constant? =
        some (.ok ⟨.bytes bs, .byteString bs.length⟩) := by
      simp only [Lexeme.constant?, Numeral.hex_hexPairs hwidth]
    exact .constant hconstant
  | null | bool b | text t => exact h.elim

theorem Payload.spelling_wellFormed (h : value.Readable ty) :
    ∀ l ∈ (value.spelling ty).2, l.WellFormed := by
  have hnumeral : ∀ l : Lexeme, l.WellFormed → ∀ b : Bool,
      ∀ l' ∈ (if b then (Rank.unary, [.symbol .minus, l]) else (Rank.atom, [l])).2,
        l'.WellFormed := by
    intro l hl b
    cases b with
    | false => exact List.forall_mem_singleton.mpr hl
    | true => exact List.forall_mem_cons.mpr ⟨trivial, List.forall_mem_singleton.mpr hl⟩
  cases value with
  | int n => exact hnumeral _ (Numeral.toDigits_wellFormed _) _
  | decimal d =>
    cases d with
    | finite x => exact hnumeral _ x.numeral_wellFormed _
    | infinite negative => exact h.elim
    | nan signaling negative payload => exact h.elim
  | bytes bs =>
    have hbs : bs ≠ [] := by
      rintro rfl
      simp [Readable, ScalarType.byteWidths] at h
    exact List.forall_mem_singleton.mpr (Numeral.hexPairs_wellFormed hbs)
  | null | bool b | text t => exact h.elim

theorem Payload.spelling_not_reserved (value : Payload) (ty : ScalarType) :
    (value.spelling ty).2.head?.any Lexeme.reserved = false := by
  have hnumeral : ∀ x : Scaled, x.numeral.reserved = false := by
    intro x
    simp only [Scaled.numeral]
    split <;> rfl
  cases value with
  | int n =>
    simp only [spelling]
    split <;> rfl
  | decimal d =>
    cases d with
    | finite x =>
      simp only [spelling]
      split
      · rfl
      · exact hnumeral x
    | infinite negative => rfl
    | nan signaling negative payload => rfl
  | bytes bs => rfl
  | null | bool b | text t => rfl

theorem Identifier.not_reserved {s : String} (h : Identifier s) :
    (Lexeme.word s.toList).reserved = false := by
  simp only [Lexeme.reserved]
  split
  · next hs =>
    obtain rfl : s = "let" := String.toList_inj.mp (Lexeme.word.inj hs)
    exact absurd (by decide) h.2
  · next hs =>
    obtain rfl : s = "return" := String.toList_inj.mp (Lexeme.word.inj hs)
    exact absurd (by decide) h.2
  · rfl

def AllWellFormed (ls : List Lexeme) : Prop := ∀ l ∈ ls, l.WellFormed

namespace AllWellFormed

@[simp] theorem nil : AllWellFormed [] := by simp [AllWellFormed]

@[simp] theorem append_iff : AllWellFormed (ls ++ ms) ↔ AllWellFormed ls ∧ AllWellFormed ms := by
  simp [AllWellFormed, or_imp, forall_and]

@[simp] theorem cons_iff {l : Lexeme} :
    AllWellFormed (l :: ls) ↔ l.WellFormed ∧ AllWellFormed ls := by
  simp [AllWellFormed]

@[simp] theorem flatMap_iff {α : Type} {xs : List α} {f : α → List Lexeme} :
    AllWellFormed (xs.flatMap f) ↔ ∀ x ∈ xs, AllWellFormed (f x) := by
  simp only [AllWellFormed, List.mem_flatMap]
  grind

end AllWellFormed

@[simp] theorem Lexeme.wellFormed_symbol (s : Symbol) : (Lexeme.symbol s).WellFormed := trivial

namespace Expr.Renders

theorem derives (h : e.Renders rank ls) (he : e.Readable) :
    Expression rank ls e.unspanned [] := by
  induction h with
  | sum hop _ _ ihl ihr => exact .sum (ihl he.2.1) hop (ihr he.2.2)
  | ofProduct _ ih => exact .ofProduct (ih he)
  | product hop _ _ ihl ihr => exact .product (ihl he.2.1) hop (ihr he.2.2)
  | ofUnary _ ih => exact .ofUnary (ih he)
  | ofAtom _ ih => exact .ofAtom (ih he)
  | literal value ty span =>
    obtain ⟨t, heq, hvalue⟩ := he
    obtain rfl := Option.some.inj heq
    exact Payload.spelling_derives hvalue
  | name ident span => simpa [unspanned] using Expression.name ident.toList
  | @conversion _ target _ _ _ ih =>
    have htarget := @Expression.conversion target.toList _ _ _ (ih he.2)
    simpa [unspanned] using htarget
  | group _ ih => exact .group (ih he)

theorem wellFormed (h : e.Renders rank ls) (he : e.Readable) : AllWellFormed ls := by
  induction h with
  | sum _ _ _ ihl ihr | product _ _ _ ihl ihr => simp [ihl he.2.1, ihr he.2.2]
  | ofProduct _ ih | ofUnary _ ih | ofAtom _ ih => exact ih he
  | literal value ty span =>
    obtain ⟨t, heq, hvalue⟩ := he
    obtain rfl := Option.some.inj heq
    exact Payload.spelling_wellFormed hvalue
  | name ident span => simpa using he.1
  | conversion _ ih => simpa [ih he.2] using he.1.1
  | group _ ih => simp [ih he]

theorem not_reserved (h : e.Renders rank ls) (he : e.Readable) :
    ls.head?.any Lexeme.reserved = false := by
  have hleft : ∀ {left : Expr} {rank : Rank} {ls : List Lexeme} (rest : List Lexeme),
      left.Renders rank ls → left.Readable → ls.head?.any Lexeme.reserved = false →
      (ls ++ rest).head?.any Lexeme.reserved = false := by
    intro left rank ls rest h hleft hls
    obtain ⟨l, ls, rfl⟩ := List.exists_cons_of_ne_nil (h.derives hleft).ne_nil
    exact hls
  induction h with
  | sum _ h _ ih _ | product _ h _ ih _ => exact hleft _ h he.2.1 (ih he.2.1)
  | ofProduct _ ih | ofUnary _ ih | ofAtom _ ih => exact ih he
  | literal value ty span => exact value.spelling_not_reserved ty
  | name ident span => exact he.not_reserved
  | conversion _ ih => exact he.1.not_reserved
  | group _ ih => rfl

theorem toSum (h : e.Renders rank ls) : e.Renders .sum ls := by
  cases rank with
  | sum => exact h
  | product => exact .ofProduct h
  | unary => exact .ofProduct (.ofUnary h)
  | atom => exact .ofProduct (.ofUnary (.ofAtom h))

/-- Parentheses around a rendering make it one of any rank. -/
theorem exists_of_rank (h : e.Renders rank ls) (rank' : Rank) : ∃ ls', e.Renders rank' ls' := by
  have hatom : e.Renders .atom _ := .group h.toSum
  cases rank' with
  | sum => exact ⟨ls, h.toSum⟩
  | product => exact ⟨_, .ofUnary (.ofAtom hatom)⟩
  | unary => exact ⟨_, .ofAtom hatom⟩
  | atom => exact ⟨_, hatom⟩

theorem exists_of_readable (he : e.Readable) : ∃ ls, e.Renders .sum ls := by
  induction e with
  | literal value ty span =>
    obtain ⟨t, rfl, -⟩ := he
    exact ⟨_, (literal value t span).toSum⟩
  | name ident span => exact ⟨_, (name ident span).toSum⟩
  | binary op left right span ihl ihr =>
    obtain ⟨⟨known, rfl⟩, hleft, hright⟩ := he
    obtain ⟨_, hl⟩ := ihl hleft
    obtain ⟨_, hr⟩ := ihr hright
    obtain ⟨_, hl'⟩ := hl.exists_of_rank .product
    obtain ⟨_, hr'⟩ := hr.exists_of_rank .product
    obtain ⟨_, hr''⟩ := hr.exists_of_rank .unary
    cases known with
    | add => exact ⟨_, sum (s := .plus) rfl hl hr'⟩
    | sub => exact ⟨_, sum (s := .minus) rfl hl hr'⟩
    | mul => exact ⟨_, (product (s := .star) rfl hl' hr'').toSum⟩
    | div => exact ⟨_, (product (s := .slash) rfl hl' hr'').toSum⟩
  | conversion target arg span ih =>
    obtain ⟨_, h⟩ := ih he.2
    exact ⟨_, (conversion h).toSum⟩
  | unsupported span => exact he.elim

end Expr.Renders

namespace Stmt

variable {stmt : Stmt}

theorem Renders.derives (h : stmt.Renders ls) (hs : stmt.Readable) :
    Statement ls stmt.unspanned [] := by
  cases h with
  | @bind _ name _ _ he =>
    have hbind := @Statement.bind name.toList _ _ _ (he.derives hs.2)
    simpa [unspanned] using hbind
  | ret => exact .ret
  | retValue he => exact .retValue (he.derives (hs _ rfl))
  | eval he => exact .eval (he.derives hs) (he.not_reserved hs)

theorem Renders.wellFormed (h : stmt.Renders ls) (hs : stmt.Readable) : AllWellFormed ls := by
  cases h with
  | bind he => simp [he.wellFormed hs.2, hs.1.1]; decide
  | ret => simp; decide
  | retValue he => simp [he.wellFormed (hs _ rfl)]; decide
  | eval he => simp [he.wellFormed hs]

theorem exists_renders (hs : stmt.Readable) : ∃ ls, stmt.Renders ls := by
  cases stmt with
  | bind name value span =>
    obtain ⟨_, h⟩ := Expr.Renders.exists_of_readable hs.2
    exact ⟨_, .bind h⟩
  | ret value span =>
    cases value with
    | none => exact ⟨_, .ret⟩
    | some value =>
      obtain ⟨_, h⟩ := Expr.Renders.exists_of_readable (hs _ rfl)
      exact ⟨_, .retValue h⟩
  | eval value span =>
    obtain ⟨_, h⟩ := Expr.Renders.exists_of_readable hs
    exact ⟨_, .eval h⟩
  | unsupported span => exact hs.elim

end Stmt

namespace RenderEach

variable {α : Type} {renders : α → List Lexeme → Prop} {xs : List α}

theorem exists_renders (h : ∀ x ∈ xs, ∃ ls, renders x ls) : ∃ ls, RenderEach renders xs ls := by
  induction xs with
  | nil => exact ⟨[], .nil⟩
  | cons x xs ih =>
    rw [List.forall_mem_cons] at h
    obtain ⟨_, hx⟩ := h.1
    obtain ⟨_, hxs⟩ := ih h.2
    exact ⟨_, .cons hx hxs⟩

theorem wellFormed (h : RenderEach renders xs ls)
    (hx : ∀ x ∈ xs, ∀ ls, renders x ls → AllWellFormed ls) : AllWellFormed ls := by
  induction h with
  | nil => exact AllWellFormed.nil
  | cons hrenders _ ih =>
    rw [List.forall_mem_cons] at hx
    exact AllWellFormed.append_iff.mpr ⟨hx.1 _ hrenders, ih hx.2⟩

end RenderEach

theorem statements_of_renderEach {stmts : List Stmt} (h : RenderEach Stmt.Renders stmts ms)
    (hs : ∀ stmt ∈ stmts, stmt.Readable) {before : List Stmt} (hbefore : Statements ls before []) :
    Statements (ls ++ ms) (before ++ stmts.map Stmt.unspanned) [] := by
  induction h generalizing ls before with
  | nil => simpa using hbefore
  | cons hrenders _ ih =>
    rw [List.forall_mem_cons] at hs
    have hstmt := hbefore.snoc (hrenders.derives hs.1)
    simpa using ih hs.2 hstmt

theorem attributes_derive {attributes before : List RawAttribute}
    (ha : ∀ a ∈ attributes, ∃ s, a = .text s ∧ Identifier s) (hbefore : Attributes ls before) :
    Attributes (ls ++ attributes.flatMap RawAttribute.lexemes) (before ++ attributes) := by
  induction attributes generalizing ls before with
  | nil => simpa using hbefore
  | cons a attributes ih =>
    rw [List.forall_mem_cons] at ha
    obtain ⟨⟨s, rfl, -⟩, ha⟩ := ha
    have hsnoc := @Attributes.snoc _ _ s.toList hbefore
    simpa [RawAttribute.lexemes, RawAttribute.shown] using ih ha hsnoc

theorem someParams_derive (params : List Param) {before : List Param}
    (hbefore : SomeParams ls before) :
    SomeParams (ls ++ params.flatMap fun p => .symbol .comma :: p.lexemes)
      (before ++ params.map Param.unspanned) := by
  induction params generalizing ls before with
  | nil => simpa using hbefore
  | cons p params ih =>
    have hsnoc := @SomeParams.snoc _ _ p.name.toList p.typeName.toList hbefore
    simpa [Param.lexemes, Param.unspanned] using ih hsnoc

theorem params_derive (params : List Param) :
    Params (Param.listed params) (params.map Param.unspanned) := by
  cases params with
  | nil => exact .none
  | cons p params =>
    have hone := SomeParams.one p.name.toList p.typeName.toList
    have hsome := someParams_derive params hone
    exact .some (by simpa [Param.listed, Param.lexemes, Param.unspanned] using hsome)

namespace FunctionDecl

variable {d : FunctionDecl}

theorem result_derives (d : FunctionDecl) : Result d.result d.returnType := by
  simp only [result]
  split
  · next h =>
    rw [h]
    exact .none
  · next ty h =>
    rw [h]
    simpa using Result.some ty.toList

theorem Renders.derives (h : d.Renders ls) (hd : d.Readable) :
    Declaration Named ls d.unspanned [] := by
  obtain ⟨hbody⟩ := h
  have ha := attributes_derive hd.attributes .none
  have hn := Named.apart d.name.toList
  have hstmts := statements_of_renderEach hbody hd.body .empty
  rw [String.ofList_toList] at hn
  rw [List.nil_append, List.nil_append] at ha hstmts
  exact .mk ha hn (params_derive d.params) d.result_derives hstmts

theorem Readable.attributes_wellFormed (hd : d.Readable) :
    AllWellFormed (d.attributes.flatMap RawAttribute.lexemes) := by
  rw [AllWellFormed.flatMap_iff]
  intro a ha
  obtain ⟨s, rfl, hs⟩ := hd.attributes a ha
  simpa [RawAttribute.lexemes, RawAttribute.shown] using hs.1

theorem Readable.params_wellFormed (hd : d.Readable) : AllWellFormed (Param.listed d.params) := by
  have hparams : ∀ p ∈ d.params, AllWellFormed p.lexemes := by
    intro p hp
    obtain ⟨hname, htype⟩ := hd.params p hp
    simp [Param.lexemes, hname.1, htype.1]
  cases hlist : d.params with
  | nil => exact AllWellFormed.nil
  | cons p ps =>
    rw [hlist, List.forall_mem_cons] at hparams
    simpa [Param.listed] using hparams

theorem Readable.result_wellFormed (hd : d.Readable) : AllWellFormed d.result := by
  simp only [result]
  split
  · exact AllWellFormed.nil
  · next ty hty => simpa using (hd.returnType ty hty).1

theorem Renders.wellFormed (h : d.Renders ls) (hd : d.Readable) : AllWellFormed ls := by
  obtain ⟨hbody⟩ := h
  have hstmts := hbody.wellFormed fun stmt hs _ hrenders => hrenders.wellFormed (hd.body stmt hs)
  have hfn : (Lexeme.word ['f', 'n']).WellFormed := by decide
  simp only [AllWellFormed.append_iff, AllWellFormed.cons_iff, AllWellFormed.nil,
    Lexeme.wellFormed_symbol, true_and, and_true]
  exact ⟨⟨⟨⟨hd.attributes_wellFormed, hfn, hd.name.1⟩, hd.params_wellFormed⟩,
    hd.result_wellFormed⟩, hstmts⟩

theorem exists_renders (hd : d.Readable) : ∃ ls, d.Renders ls := by
  obtain ⟨_, hbody⟩ :=
    RenderEach.exists_renders fun stmt hs => Stmt.exists_renders (hd.body stmt hs)
  exact ⟨_, .mk hbody⟩

end FunctionDecl

theorem program_of_renderEach {decls : List FunctionDecl}
    (h : RenderEach FunctionDecl.Renders decls ms) (hd : ∀ d ∈ decls, d.Readable)
    {before : List FunctionDecl} (hbefore : Program Named ls before []) :
    Program Named (ls ++ ms) (before ++ decls.map FunctionDecl.unspanned) [] := by
  induction h generalizing ls before with
  | nil => simpa using hbefore
  | cons hrenders _ ih =>
    rw [List.forall_mem_cons] at hd
    have hdecl := hbefore.snoc (hrenders.derives hd.1)
    simpa using ih hd.2 hdecl

/-- Every list of readable declarations has renderings, and whatever their parentheses and
their layout, each is read as the declarations, spans aside. -/
theorem reads_renderings {decls : List FunctionDecl} (hd : ∀ d ∈ decls, d.Readable) :
    (∃ ls text, RenderEach FunctionDecl.Renders decls ls ∧ Lexeme.Written ls (String.toList text)) ∧
    ∀ ls text file, RenderEach FunctionDecl.Renders decls ls →
      Lexeme.Written ls (String.toList text) →
      ∃ rs, Reading.ofSource text file = .ok (.declarations rs) ∧
        rs.map FunctionDecl.unspanned = decls.map FunctionDecl.unspanned := by
  constructor
  · obtain ⟨ls, h⟩ :=
      RenderEach.exists_renders fun d hmem => FunctionDecl.exists_renders (hd d hmem)
    refine ⟨ls, String.ofList (ls.flatMap fun l => l.chars ++ [' ']), h, ?_⟩
    rw [String.toList_ofList]
    exact Lexeme.written_apart ls
  · intro ls text file h hw
    have hprogram := program_of_renderEach h hd .empty
    have hls := h.wellFormed fun d hmem _ hrenders => hrenders.wellFormed (hd d hmem)
    obtain ⟨r, hread, hfunctions, hfault⟩ := Reader.read_of_program file hprogram hls hw
    exact ⟨r.functions, Reading.ofSource_eq_declarations.mpr
      ⟨r, hread, by simpa using hfault, rfl⟩, by simpa using hfunctions⟩

theorem reads_renderings_difference :
    ∃ rs, Reading.ofSource "fn f ( ) { return a - ( b - 1.50 ) ; } " none =
        .ok (.declarations rs) ∧
      rs.map FunctionDecl.unspanned =
        [⟨"f", [], [], none, [.ret (some (.binary (.known .sub) (.name "a" {})
          (.binary (.known .sub) (.name "b" {})
            (.literal (.decimal (.finite ⟨false, 150, -2⟩)) (some .fixed) {}) {}) {})) {}],
          {}⟩] := by
  let decimal : Payload := .decimal (.finite ⟨false, 150, -2⟩)
  let inner : Expr := .binary (.known .sub) (.name "b" {}) (.literal decimal (some .fixed) {}) {}
  let outer : Expr := .binary (.known .sub) (.name "a" {}) inner {}
  let d : FunctionDecl := ⟨"f", [], [], none, [.ret (some outer) {}], {}⟩
  have ha : Identifier "a" := by decide
  have hb : Identifier "b" := by decide
  have hliteral : decimal.Readable .fixed := ⟨rfl, by decide⟩
  have hd : d.Readable := by
    refine ⟨by simp [d], by decide, by simp [d], by simp [d], List.forall_mem_singleton.mpr ?_⟩
    intro e he
    obtain rfl := Option.some.inj he
    exact ⟨⟨_, rfl⟩, ha, ⟨_, rfl⟩, hb, _, rfl, hliteral⟩
  have hspelling : (decimal.spelling .fixed).2 = [.decimal ['1'] ['5', '0']] := by decide
  have hdecimal := Expr.Renders.literal decimal .fixed {}
  rw [hspelling] at hdecimal
  have hinner : inner.Renders .sum _ :=
    .sum (s := .minus) rfl (Expr.Renders.name "b" {}).toSum (.ofUnary (.ofAtom hdecimal))
  have houter : outer.Renders .sum _ :=
    .sum (s := .minus) rfl (Expr.Renders.name "a" {}).toSum (.ofUnary (.ofAtom (.group hinner)))
  have hstmt : (Stmt.ret (some outer) {}).Renders _ := .retValue houter
  have hrenders : RenderEach FunctionDecl.Renders [d] _ := .cons (.mk (.cons hstmt .nil)) .nil
  let ls : List Lexeme := [.word ['f', 'n'], .word "f".toList, .symbol .lparen, .symbol .rparen,
    .symbol .lbrace, .word ['r', 'e', 't', 'u', 'r', 'n'], .word "a".toList, .symbol .minus,
    .symbol .lparen, .word "b".toList, .symbol .minus, .decimal ['1'] ['5', '0'], .symbol .rparen,
    .symbol .semicolon, .symbol .rbrace]
  have hw : Lexeme.Written ls "fn f ( ) { return a - ( b - 1.50 ) ; } ".toList :=
    Lexeme.written_apart ls
  exact (reads_renderings (List.forall_mem_singleton.mpr hd)).2 ls _ none hrenders hw

end ContractGuard
