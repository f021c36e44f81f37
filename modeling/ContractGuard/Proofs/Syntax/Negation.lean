import ContractGuard.Proofs.Scalar.Legality
import ContractGuard.Proofs.Syntax.Acceptance
import ContractGuard.Proofs.Syntax.Numeral

/-!
# The negative of a decimal

A decimal is read as the number that it is written for, whatever its length. Its negative is
taken in the context of a sign, which has twenty-eight digits: it is exact if the decimal has
no more of them, and otherwise it is another number or none. The least number of the
fixed-point type is written with more, so it is read as one that lies beside it.
-/

namespace ContractGuard

open Grammar Lexeme

variable {file : Option String} {text positive negated : String} {e e' : Expr}
  {ls : List Lexeme} {fs : List NumeralFault} {whole fraction : List Char}

def Lexeme.evaluation (ls : List Lexeme) : List Lexeme :=
  [.symbol .at, .word "public".toList, .word ['f', 'n'], .word ['f'], .symbol .lparen,
    .symbol .rparen, .symbol .lbrace] ++ ls ++ [.symbol .semicolon, .symbol .rbrace]

namespace Reading

/-- The text is read as one function, which evaluates the expression, spans aside. -/
def Evaluates (text : String) (file : Option String) (e : Expr) : Prop :=
  ∃ d, ofSource text file = .ok (.declarations [d]) ∧ d.body.map Stmt.unspanned = [.eval e {}]

def EvaluatesDecimal (text : String) (file : Option String) (x : Scaled) : Prop :=
  Evaluates text file (.literal (.decimal (.finite x)) (some .fixed) {})

theorem evaluation_derives (h : Expression .sum ls e fs)
    (hreserved : ls.head?.any Lexeme.reserved = false) :
    Program Named (evaluation ls)
      [⟨"f", [.text "public"], [], none, [.eval e {}], {}⟩] fs := by
  have hpublic : Attributes [.symbol .at, .word "public".toList] [.text "public"] :=
    @Attributes.snoc [] [] "public".toList .none
  have hstmt := Statements.empty.snoc (.eval h hreserved)
  have hprogram := Program.empty.snoc (.mk hpublic (Named.apart ['f']) .none .none hstmt)
  simpa [evaluation] using hprogram

theorem evaluation_wellFormed (h : ∀ l ∈ ls, l.WellFormed) :
    ∀ l ∈ evaluation ls, l.WellFormed := by
  have hopening : ∀ l ∈ [Lexeme.symbol .at, .word "public".toList, .word ['f', 'n'], .word ['f'],
      .symbol .lparen, .symbol .rparen, .symbol .lbrace], l.WellFormed := by decide
  have hclosing : ∀ l ∈ [Lexeme.symbol .semicolon, .symbol .rbrace], l.WellFormed := by decide
  simp only [evaluation, List.forall_mem_append]
  exact ⟨⟨hopening, h⟩, hclosing⟩

theorem evaluates_iff (h : Expression .sum ls e fs)
    (hreserved : ls.head?.any Lexeme.reserved = false) (hls : ∀ l ∈ ls, l.WellFormed)
    (htext : Spells (evaluation ls) text.toList) :
    Evaluates text file e' ↔ e' = e ∧ fs = [] := by
  obtain ⟨r, hread, hfunctions, hfault⟩ :=
    Reader.read_of_spells file (evaluation_derives h hreserved) (evaluation_wellFormed hls) htext
  obtain ⟨d, hd, hbody⟩ : ∃ d, r.functions = [d] ∧ d.body.map Stmt.unspanned = [.eval e {}] := by
    obtain ⟨d, hd, hunspanned⟩ := List.map_eq_singleton_iff.mp hfunctions
    exact ⟨d, hd, congrArg FunctionDecl.body hunspanned⟩
  constructor
  · rintro ⟨d', hsource, hbody'⟩
    obtain ⟨r', hread', hnone, hfunctions'⟩ := ofSource_eq_declarations.mp hsource
    obtain rfl := Except.ok.inj (hread.symm.trans hread')
    obtain rfl : d = d' := by simpa [hd] using hfunctions'
    refine ⟨by simpa [hbody] using hbody'.symm, ?_⟩
    simpa [hnone] using hfault.symm
  · rintro ⟨rfl, rfl⟩
    exact ⟨d, ofSource_eq_declarations.mpr ⟨r, hread, by simpa using hfault, hd⟩, hbody⟩

end Reading

namespace Reading

section

variable (hl : (Lexeme.decimal whole fraction).WellFormed)

include hl

theorem evaluatesDecimal_iff
    (htext : Spells (evaluation [.decimal whole fraction]) positive.toList) {x : Scaled} :
    EvaluatesDecimal positive file x ↔ Numeral.decimalOf whole fraction = .finite x := by
  have hexpr : Expression .sum [.decimal whole fraction]
      (constantTree (Numeral.decimal whole fraction)) [] :=
    .ofProduct (.ofUnary (.ofAtom (.constant rfl)))
  rw [EvaluatesDecimal, evaluates_iff hexpr rfl (by simpa using hl) htext]
  simp [constantTree, Numeral.decimal, eq_comm]

theorem evaluatesDecimal_negated_iff
    (htext : Spells (evaluation [.symbol .minus, .decimal whole fraction]) negated.toList)
    {y : Scaled} :
    EvaluatesDecimal negated file y ↔
      Numeral.negativeDecimal whole fraction = .ok ⟨.decimal (.finite y), .fixed⟩ := by
  have hexpr : Expression .sum [.symbol .minus, .decimal whole fraction]
      (constantTree (Numeral.negativeDecimal whole fraction))
      (constantFaults (Numeral.negativeDecimal whole fraction)) :=
    .ofProduct (.ofUnary (.negative rfl))
  have hls : ∀ l ∈ [Lexeme.symbol .minus, .decimal whole fraction], l.WellFormed :=
    List.forall_mem_cons.mpr ⟨trivial, List.forall_mem_singleton.mpr hl⟩
  rw [EvaluatesDecimal, evaluates_iff hexpr rfl hls htext]
  cases hnegative : Numeral.negativeDecimal whole fraction with
  | ok c =>
    obtain ⟨value, ty⟩ := c
    simp [constantTree, constantFaults, eq_comm]
  | error fault => simp [constantFaults]

end

end Reading

namespace Numeral

open Reading

/-- A decimal is read exactly, whatever its length. Its negative is read at all below the limit
of the context of a sign, and exactly if that context holds it; then it is a legal literal if
and only if it is a number of the type. -/
theorem negation_exact_iff (hl : (Lexeme.decimal whole fraction).WellFormed)
    (hpositive : Spells (evaluation [.decimal whole fraction]) positive.toList)
    (hnegated : Spells (evaluation [.symbol .minus, .decimal whole fraction]) negated.toList)
    (file : Option String) :
    ∃ x, EvaluatesDecimal positive file x ∧ x.val = written whole fraction ∧
      ((∃ y, EvaluatesDecimal negated file y) ↔ x.val < Context.plain.limit) ∧
      ((∃ y, EvaluatesDecimal negated file y ∧ y.val = -x.val) ↔ Context.plain.Keeps x.val) ∧
      ∀ y, EvaluatesDecimal negated file y → y.val = -x.val →
        (ScalarType.fixed.literalInRange (.decimal (.finite y)) = .ok true ↔
          ∃ i : ℤ, -x.val * 10 ^ 18 = i ∧ -2 ^ 127 ≤ i ∧ i ≤ 2 ^ 127 - 1) := by
  obtain ⟨x, hx, -, hval⟩ := decimalOf_val whole fraction
  obtain ⟨hdefined, hexact⟩ := negativeDecimal_keeps whole fraction
  have hevaluates : ∀ y, EvaluatesDecimal negated file y ↔
      negativeDecimal whole fraction = .ok ⟨.decimal (.finite y), .fixed⟩ :=
    fun y => evaluatesDecimal_negated_iff hl hnegated
  refine ⟨x, (evaluatesDecimal_iff hl hpositive).mpr hx, hval, ?_, ?_, ?_⟩
  · simpa only [hevaluates, hval] using hdefined
  · simpa only [hevaluates, hval] using hexact
  · intro y _ hy
    rw [ScalarType.literalInRange_fixed_iff, ← hy]
    exact ScalarType.holds_fixed_iff

theorem keeps_written (hl : (Lexeme.decimal whole fraction).WellFormed)
    (hlength : (whole ++ fraction).length ≤ 28) :
    Context.plain.Keeps (written whole fraction) := by
  have hdigits : (whole ++ fraction).all Char.isDigit = true := by
    rw [List.all_append, hl.1.2, hl.2.2]
    rfl
  have hparts : whole.length + fraction.length ≤ 28 := by simpa using hlength
  refine ⟨?_, Nat.ofDigitChars 10 (whole ++ fraction) 0, -fraction.length, ?_, ?_, rfl⟩
  · by_contra hlimit
    have := length_of_limit_le hl (not_lt.mp hlimit)
    omega
  · have hlt := ofDigitChars_lt hdigits 0
    rw [Nat.zero_add, Nat.one_mul] at hlt
    exact hlt.trans_le (Nat.pow_le_pow_right (by decide) hlength)
  · have htiny : Context.plain.tiny = -1000026 := rfl
    omega

theorem negation_exact_short :
    ∃ y, EvaluatesDecimal "@ public fn f ( ) { - 1234567890.123456789012345678 ; } " none y ∧
      y.val = -1234567890.123456789012345678 ∧
      ScalarType.fixed.literalInRange (.decimal (.finite y)) = .ok true := by
  have hl : (Lexeme.decimal "1234567890".toList "123456789012345678".toList).WellFormed := by
    decide
  have hpositive : Spells (evaluation [.decimal "1234567890".toList "123456789012345678".toList])
      "@ public fn f ( ) { 1234567890.123456789012345678 ; } ".toList :=
    (written_apart _).spells
  have hnegated : Spells
      (evaluation [.symbol .minus, .decimal "1234567890".toList "123456789012345678".toList])
      "@ public fn f ( ) { - 1234567890.123456789012345678 ; } ".toList :=
    (written_apart _).spells
  obtain ⟨x, -, hval, -, hexact, hlegal⟩ := negation_exact_iff hl hpositive hnegated none
  obtain ⟨y, hy, hneg⟩ := hexact.mpr (hval ▸ keeps_written hl (by decide))
  have hx : x.val = 1234567890123456789012345678 * 10 ^ (-18 : ℤ) := hval
  have hfits := (hlegal y hy hneg).mpr ⟨-1234567890123456789012345678, by norm_num [hx], by decide⟩
  exact ⟨y, hy, by rw [hneg, hx]; norm_num, hfits⟩

/-- The least number of the fixed-point type is read as a greater one, which is legal. -/
theorem negation_inexact_lowest :
    ∃ y, EvaluatesDecimal "@ public fn f ( ) { - 170141183460469231731.687303715884105728 ; } "
        none y ∧
      y.val ≠ -170141183460469231731.687303715884105728 ∧
      ScalarType.fixed.literalInRange (.decimal (.finite y)) = .ok true := by
  have hl : (Lexeme.decimal "170141183460469231731".toList
      "687303715884105728".toList).WellFormed := by
    decide
  have htext : Spells (evaluation [.symbol .minus,
        .decimal "170141183460469231731".toList "687303715884105728".toList])
      "@ public fn f ( ) { - 170141183460469231731.687303715884105728 ; } ".toList :=
    (written_apart _).spells
  have hneg : negativeDecimal "170141183460469231731".toList "687303715884105728".toList =
      .ok ⟨.decimal (.finite ⟨true, 1701411834604692317316873037, -7⟩), .fixed⟩ := by
    decide +kernel
  have hval : (⟨true, 1701411834604692317316873037, -7⟩ : Scaled).val =
      -170141183460469231731.6873037 := by
    norm_num [Scaled.val, Scaled.signed]
  refine ⟨_, (evaluatesDecimal_negated_iff hl htext).mpr hneg, by norm_num [hval], ?_⟩
  refine ScalarType.literalInRange_fixed_iff.mpr (ScalarType.holds_fixed_iff.mpr ?_)
  exact ⟨-170141183460469231731687303700000000000, by norm_num [hval], by decide⟩

end Numeral

end ContractGuard
