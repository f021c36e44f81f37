import ContractGuard.Proofs.Syntax.Acceptance
import ContractGuard.Proofs.Syntax.Numeral
import ContractGuard.Proofs.Wording

/-!
# Trees that are read

Whatever the text, the lexemes that a reader took from it spell the declarations that it
read. A numeral with a value has a type of the table, so without a fault every literal of
these declarations has one, their operators are known, and no node is without a meaning.
-/

namespace ContractGuard

open Grammar

namespace Expr

/-- A literal can be written and its type is in the table, an operator is one of the four, and
every node has a meaning. -/
def Typed : Expr → Prop
  | literal value ty _ => value.HasText ∧ ∃ known ∈ ScalarType.table, ty = some known
  | name .. => True
  | binary op left right _ => (∃ known, op = .known known) ∧ left.Typed ∧ right.Typed
  | conversion _ arg _ => arg.Typed
  | unsupported _ => False

theorem typed_unspanned (e : Expr) : e.unspanned.Typed ↔ e.Typed := by
  induction e with
  | literal | name | unsupported => rfl
  | binary op left right span ihl ihr => exact and_congr Iff.rfl (and_congr ihl ihr)
  | conversion target arg span ih => exact ih

end Expr

namespace Stmt

def Typed : Stmt → Prop
  | bind _ value _ | eval value _ => value.Typed
  | ret value _ => ∀ e ∈ value, e.Typed
  | unsupported _ => False

theorem typed_unspanned (s : Stmt) : s.unspanned.Typed ↔ s.Typed := by
  cases s with
  | bind name value span | eval value span => exact value.typed_unspanned
  | ret value span => simp [unspanned, Typed, Expr.typed_unspanned]
  | unsupported span => rfl

end Stmt

namespace FunctionDecl

def Typed (d : FunctionDecl) : Prop := ∀ s ∈ d.body, s.Typed

theorem typed_unspanned (d : FunctionDecl) : d.unspanned.Typed ↔ d.Typed := by
  simp [Typed, unspanned, Stmt.typed_unspanned]

end FunctionDecl

variable {ls ms : List Lexeme} {fs : List NumeralFault} {l : Lexeme} {c : Constant}

theorem Numeral.ofDigitChars_lt_add (cs : List Char) (n : ℕ) :
    Nat.ofDigitChars 10 cs n < (n + 10 ^ 10) * 10 ^ cs.length := by
  induction cs generalizing n with
  | nil => simp [Nat.ofDigitChars]
  | cons c cs ih =>
    have hc : c.toNat < 2 ^ 32 := c.val.toNat_lt
    calc Nat.ofDigitChars 10 (c :: cs) n
        < (10 * n + (c.toNat - '0'.toNat) + 10 ^ 10) * 10 ^ cs.length := ih _
      _ ≤ ((n + 10 ^ 10) * 10) * 10 ^ cs.length := Nat.mul_le_mul_right _ (by omega)
      _ = (n + 10 ^ 10) * 10 ^ (c :: cs).length := by rw [List.length_cons]; ring

theorem Numeral.magnitude_lt {digits : List Char} {n : ℕ} (h : magnitude? digits = .ok n) :
    n < 10 ^ textLimit := by
  simp only [magnitude?] at h
  split at h
  · cases h
  next hlength =>
  obtain rfl := Except.ok.inj h
  have hlt := ofDigitChars_lt_add (digits.dropWhile (· = '0')) 0
  rw [Nat.zero_add, ← pow_add] at hlt
  exact lt_of_digits hlt (by simp only [maxDigits, textLimit] at *; omega)

/-- What a numeral stands for, with a sign before it or not. -/
inductive Constant.Formed : Constant → Prop
  | uint {n : ℕ} : n < 10 ^ textLimit → Formed ⟨.int n, .uint 256⟩
  | int {n : ℕ} : n < 10 ^ textLimit → Formed ⟨.int (-n), .int 256⟩
  | decimal (d : Decimal) : Formed ⟨.decimal d, .fixed⟩
  | bytes {bs : List UInt8} :
      bs.length ∈ ScalarType.byteWidths → Formed ⟨.bytes bs, .byteString bs.length⟩

theorem Lexeme.constant_formed (h : l.constant? = some (.ok c) ∨ l.negated? = some (.ok c)) :
    c.Formed := by
  cases l with
  | integer digits =>
    simp only [constant?, negated?, Numeral.integer, Numeral.negativeInteger,
      Option.some.injEq] at h
    cases hm : Numeral.magnitude? digits with
    | error fault => simp [hm, bind, Except.bind] at h
    | ok n =>
      have hlt := Numeral.magnitude_lt hm
      simp only [hm, bind, Except.bind, pure, Except.pure, Except.ok.injEq] at h
      rcases h with rfl | rfl
      · exact .uint hlt
      · exact .int hlt
  | decimal whole fraction =>
    simp only [constant?, negated?, Numeral.decimal, Numeral.negativeDecimal,
      Option.some.injEq] at h
    rcases h with h | h
    · obtain rfl := Except.ok.inj h
      exact .decimal _
    · split at h
      · obtain rfl := Except.ok.inj h
        exact .decimal _
      · cases h
  | hex digits =>
    have hhex : Numeral.hex digits = .ok c := by simpa [constant?, negated?] using h
    simp only [Numeral.hex] at hhex
    split at hhex
    · cases hhex
    · split at hhex
      · next hlength =>
        obtain rfl := Except.ok.inj hhex
        exact .bytes (List.contains_iff_mem.mp hlength)
      · cases hhex
  | word cs => simp [constant?, negated?] at h
  | symbol s => simp [constant?, negated?] at h

theorem Constant.Formed.hasText (h : c.Formed) : c.value.HasText := by
  cases h with
  | uint hlt => exact hlt
  | @int n hlt => exact (Int.natAbs_neg n).trans_lt hlt
  | decimal d | bytes _ => trivial

theorem Constant.Formed.ty_mem (h : c.Formed) : c.ty ∈ ScalarType.table := by
  have hnumeric : ∀ ty ∈ [ScalarType.uint 256, .int 256, .fixed], ty ∈ ScalarType.table := by
    decide
  have hbytes : ∀ length ∈ ScalarType.byteWidths,
      ScalarType.byteString length ∈ ScalarType.table := by decide
  cases h with
  | uint _ | int _ | decimal _ => exact hnumeric _ (by simp)
  | bytes hlength => exact hbytes _ hlength

namespace Grammar

theorem constantTree_typed {c : Except NumeralFault Constant}
    (h : l.constant? = some c ∨ l.negated? = some c) (hfaults : constantFaults c = []) :
    (constantTree c).Typed := by
  cases c with
  | ok c =>
    have hformed := Lexeme.constant_formed h
    exact ⟨hformed.hasText, c.ty, hformed.ty_mem, rfl⟩
  | error fault => cases hfaults

theorem Expression.typed {rank : Rank} {e : Expr} (h : Expression rank ls e fs) (hfs : fs = []) :
    e.Typed := by
  induction h with
  | sum _ _ _ ihl ihr | product _ _ _ ihl ihr =>
    obtain ⟨hl, hr⟩ := List.append_eq_nil_iff.mp hfs
    exact ⟨⟨_, rfl⟩, ihl hl, ihr hr⟩
  | ofProduct _ ih | ofUnary _ ih | ofAtom _ ih | conversion _ ih | group _ ih => exact ih hfs
  | negative h => exact constantTree_typed (.inr h) hfs
  | constant h => exact constantTree_typed (.inl h) hfs
  | name cs => trivial

theorem Statement.typed {s : Stmt} (h : Statement ls s fs) (hfs : fs = []) : s.Typed := by
  cases h with
  | bind he => exact he.typed hfs
  | ret => simp [Stmt.Typed]
  | retValue he => simpa [Stmt.Typed] using he.typed hfs
  | eval he _ => exact he.typed hfs

theorem Statements.typed {stmts : List Stmt} (h : Statements ls stmts fs) (hfs : fs = []) :
    ∀ s ∈ stmts, s.Typed := by
  induction h with
  | empty => simp
  | snoc _ hs ih =>
    obtain ⟨hl, hr⟩ := List.append_eq_nil_iff.mp hfs
    simpa [or_imp, forall_and] using ⟨ih hl, hs.typed hr⟩

theorem Program.typed {named : List Lexeme → String → Prop} {decls : List FunctionDecl}
    (h : Program named ls decls fs) (hfs : fs = []) : ∀ d ∈ decls, d.Typed := by
  induction h with
  | empty => simp
  | snoc _ hdecl ih =>
    obtain ⟨hl, hr⟩ := List.append_eq_nil_iff.mp hfs
    obtain ⟨-, -, -, -, hstmts⟩ := hdecl
    simpa [or_imp, forall_and] using ⟨ih hl, hstmts.typed hr⟩

end Grammar

namespace Lexeme

variable {expecting : Expecting} {ch : Char} {rest after cs : List Char}

theorem skipLayout_suffix (p : Position) (inComment : Bool) (cs : List Char) :
    (skipLayout p inComment cs).2 <:+ cs := by
  fun_induction skipLayout p inComment cs with
  | case1 => exact List.suffix_refl []
  | case2 _ _ _ ih => exact ih.trans ⟨['/', '/'], rfl⟩
  | case3 _ c _ _ ih => exact ih.trans (List.suffix_cons c _)
  | case4 _ _ c _ _ _ _ ih => exact ih.trans (List.suffix_cons c _)
  | case5 => exact List.suffix_refl _

theorem readWord_chars (expecting : Expecting) (cs : List Char) :
    (readWord expecting cs).1.chars ++ (readWord expecting cs).2 = cs := by
  simp only [readWord]
  split
  · next h =>
    obtain ⟨tail, rfl⟩ := List.isPrefixOf_iff_prefix.mp h.2
    simp [chars]
  · exact List.takeWhile_append_dropWhile

theorem readPlainNumeral_chars (cs : List Char) :
    (readPlainNumeral cs).1.chars ++ (readPlainNumeral cs).2 = cs := by
  have hsplit := List.takeWhile_append_dropWhile (p := Char.isDigit) (l := cs)
  simp only [readPlainNumeral]
  split
  · next d tail hrest =>
    split
    · rw [hrest] at hsplit
      simpa [chars] using hsplit
    · exact hsplit
  · exact hsplit

theorem readNumeral_chars (expecting : Expecting) (cs : List Char) :
    (readNumeral expecting cs).1.chars ++ (readNumeral expecting cs).2 = cs := by
  simp only [readNumeral]
  split
  · split
    · simp [chars]
    · exact readPlainNumeral_chars _
  · exact readPlainNumeral_chars _

theorem chars_of_ofChar? {s : Symbol} (h : Symbol.ofChar? ch = some s) : s.chars = [ch] := by
  simp only [Symbol.ofChar?] at h
  split at h <;> cases h <;> rfl

theorem readSymbol?_chars (h : readSymbol? expecting ch rest = some (l, after)) :
    l.chars ++ after = ch :: rest := by
  simp only [readSymbol?] at h
  split at h
  · split at h <;> obtain ⟨rfl, rfl⟩ := Prod.mk.inj (Option.some.inj h) <;> rfl
  · obtain ⟨s, hs, hl⟩ := Option.map_eq_some_iff.mp h
    obtain ⟨rfl, rfl⟩ := Prod.mk.inj hl
    simp [chars, chars_of_ofChar? hs]

theorem read?_chars (h : read? expecting ch rest = some (l, after)) :
    l.chars ++ after = ch :: rest := by
  simp only [read?] at h
  split at h
  · have hw := readWord_chars expecting (ch :: rest)
    rwa [Option.some.inj h] at hw
  · split at h
    · have hn := readNumeral_chars expecting (ch :: rest)
      rwa [Option.some.inj h] at hn
    · exact readSymbol?_chars h

theorem readWord_wellFormed (expecting : Expecting) (rest : List Char)
    (h : isWordStart ch = true) : (readWord expecting (ch :: rest)).1.WellFormed := by
  simp only [readWord]
  split
  · show (word functionWord).WellFormed
    decide
  · refine ⟨?_, List.all_takeWhile⟩
    rw [List.takeWhile_cons_of_pos (isWordChar_of_isWordStart h)]
    exact h

theorem readPlainNumeral_wellFormed (rest : List Char) (h : ch.isDigit = true) :
    (readPlainNumeral (ch :: rest)).1.WellFormed := by
  have hwhole : (ch :: rest).takeWhile Char.isDigit ≠ [] := by
    rw [List.takeWhile_cons_of_pos h]
    exact List.cons_ne_nil _ _
  simp only [readPlainNumeral]
  split
  · next d tail _ =>
    split
    · next hd =>
      refine ⟨⟨hwhole, List.all_takeWhile⟩, List.cons_ne_nil _ _, ?_⟩
      rw [List.all_cons, hd, List.all_takeWhile]
      rfl
    · exact ⟨hwhole, List.all_takeWhile⟩
  · exact ⟨hwhole, List.all_takeWhile⟩

theorem readNumeral_wellFormed (expecting : Expecting) (rest : List Char)
    (h : ch.isDigit = true) : (readNumeral expecting (ch :: rest)).1.WellFormed := by
  have hplain := readPlainNumeral_wellFormed rest h
  simp only [readNumeral]
  split
  · split
    · next hd =>
      refine ⟨List.cons_ne_nil _ _, ?_⟩
      rw [List.all_cons, hd.2, List.all_takeWhile]
      rfl
    · exact hplain
  · exact hplain

theorem read?_wellFormed (h : read? expecting ch rest = some (l, after)) : l.WellFormed := by
  simp only [read?] at h
  split at h
  · next hstart =>
    have hw := readWord_wellFormed expecting rest hstart
    rwa [Option.some.inj h] at hw
  · split at h
    · next hdigit =>
      have hn := readNumeral_wellFormed expecting rest hdigit
      rwa [Option.some.inj h] at hn
    · obtain ⟨s, rfl⟩ := readSymbol?_eq_symbol h
      trivial

def Occurs (l : Lexeme) (cs : List Char) : Prop := l.WellFormed ∧ l.chars <:+: cs

end Lexeme

namespace Reader

open Lexeme

variable {file : Option String} {r r' : Reader} {p : Position} {cs : List Char}

theorem run_reads (hr : r.Reads ls) (h : r.run file p cs = .ok r') :
    ∃ ms, r'.Reads (ls ++ ms) ∧ ∀ l ∈ ms, l.Occurs cs := by
  fun_induction Reader.run file r p cs generalizing ls with
  | case1 r p cs start hskip =>
    obtain rfl := Except.ok.inj h
    exact ⟨[], by simpa using hr, by simp⟩
  | case2 => cases h
  | case3 r p cs start c rest hskip l after hread stop r₁ hstep =>
    rename_i ih
    obtain ⟨ms, hreads, hms⟩ := ih (step_reads hr hstep) h
    have hsuffix : l.chars ++ after <:+ cs := by
      have hskipped := skipLayout_suffix p false cs
      rwa [hskip, ← read?_chars hread] at hskipped
    refine ⟨l :: ms, by simpa using hreads, ?_⟩
    intro l' hl'
    rcases List.mem_cons.mp hl' with rfl | hl'
    · exact ⟨read?_wellFormed hread, (List.prefix_append _ _).isInfix.trans hsuffix.isInfix⟩
    · obtain ⟨hwf, hinfix⟩ := hms l' hl'
      exact ⟨hwf, hinfix.trans ((List.suffix_append _ _).trans hsuffix).isInfix⟩
  | case4 => cases h

/-- The declarations of a text are spelled by lexemes of the text. -/
theorem read_derives (h : read file cs = .ok r) :
    ∃ ls fs, Program Named ls (r.functions.map FunctionDecl.unspanned) fs ∧
      r.fault.map NumeralError.fault = fs.head? ∧ ∀ l ∈ ls, l.Occurs cs := by
  obtain ⟨hrun, decls, hfinish⟩ := read_eq_ok.mp h
  obtain ⟨ls, hreads, hls⟩ := run_reads reads_empty hrun
  obtain ⟨rfl, fs, hprogram, hfs⟩ := program_of_finish hreads hfinish
  exact ⟨_, fs, hprogram, hfs, hls⟩

theorem read_typed (h : read file cs = .ok r) (hfault : r.fault = none) :
    ∀ d ∈ r.functions, d.Typed := by
  obtain ⟨ls, fs, hprogram, hfs, -⟩ := read_derives h
  obtain rfl : fs = [] := by simpa [hfault] using hfs.symm
  intro d hd
  exact d.typed_unspanned.mp (hprogram.typed rfl _ (List.mem_map_of_mem hd))

theorem read_signal {s : Signal} {span : Span} (h : read file cs = .ok r)
    (hfault : r.fault = some ⟨.signal s, span⟩) :
    s = .overflow ∧ ∃ whole fraction, (Lexeme.decimal whole fraction).Occurs cs ∧
      Context.plain.limit ≤ Numeral.written whole fraction := by
  obtain ⟨ls, fs, hprogram, hfs, hls⟩ := read_derives h
  have hmem : NumeralFault.signal s ∈ fs := by
    apply List.mem_of_mem_head?
    rw [← hfs, hfault]
    rfl
  obtain ⟨whole, fraction, hl, hneg⟩ := hprogram.signal_mem hmem
  obtain ⟨hs, hlimit⟩ := Numeral.negativeDecimal_eq_error.mp hneg
  exact ⟨NumeralFault.signal.inj hs, whole, fraction, hls _ hl, hlimit⟩

end Reader

end ContractGuard
