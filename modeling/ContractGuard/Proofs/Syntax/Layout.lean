import ContractGuard.Proofs.Syntax.Declarations
import ContractGuard.Syntax.Source

/-!
# Lexemes in a text

A lexeme is read as it is written, whatever stands before it, if nothing follows that it
could run into; a blank is always safe. There are three exceptions, where only a shorter
lexeme can come next. Where a declaration begins a word is cut after `fn`, which spells the
same as the two words apart; a hexadecimal numeral after a sign and an arrow after an operand
are cut as well, and what follows the cut is then a syntax fault, as the whole lexeme would
have been.
-/

namespace ContractGuard

namespace Lexeme

/-- Blanks, and comments that end with their line. -/
inductive Filler : List Char → Prop
  | nil : Filler []
  | blank {c : Char} {cs : List Char} : isBlank c = true → Filler cs → Filler (c :: cs)
  | comment {body cs : List Char} :
      '\n' ∉ body → Filler cs → Filler ('/' :: '/' :: (body ++ '\n' :: cs))

def Ends (cs : List Char) : Prop := cs.head?.all isBlank = true

/-- The lexemes stand in the text one after the other, with blanks between them. -/
inductive Written : List Lexeme → List Char → Prop
  | nil {cs : List Char} : Filler cs → Written [] cs
  | cons {gap cs : List Char} {l : Lexeme} {ls : List Lexeme} :
      Filler gap → Ends cs → Written ls cs → Written (l :: ls) (gap ++ l.chars ++ cs)

theorem Written.blank {c : Char} {cs : List Char} {ls : List Lexeme} (hc : isBlank c = true)
    (h : Written ls cs) : Written ls (c :: cs) := by
  cases h with
  | nil hgap => exact .nil (.blank hc hgap)
  | cons hgap hends hrest => exact .cons (.blank hc hgap) hends hrest

def Stops : Lexeme → List Char → Prop
  | word _, rest => rest.head?.any isWordChar = false
  | integer _, rest => rest.head?.any (fun c => c.isDigit || c = '.' || c = 'x') = false
  | decimal .., rest => rest.head?.any Char.isDigit = false
  | hex _, rest => rest.head?.any isHexDigit = false
  | symbol s, rest =>
    (s = .minus → rest.head? ≠ some '>') ∧ (s = .slash → rest.head? ≠ some '/')

instance : (l : Lexeme) → (rest : List Char) → Decidable (l.Stops rest)
  | word _, _ | integer _, _ | decimal .., _ | hex _, _ => inferInstanceAs (Decidable (_ = false))
  | symbol s, rest =>
    inferInstanceAs (Decidable ((s = .minus → rest.head? ≠ some '>') ∧
      (s = .slash → rest.head? ≠ some '/')))

/-- The lexemes stand in the text one after the other, and none runs into what follows. -/
inductive Spells : List Lexeme → List Char → Prop
  | nil {cs : List Char} : Filler cs → Spells [] cs
  | cons {gap cs : List Char} {l : Lexeme} {ls : List Lexeme} :
      Filler gap → l.Stops cs → Spells ls cs → Spells (l :: ls) (gap ++ l.chars ++ cs)

theorem written_apart (ls : List Lexeme) : Written ls (ls.flatMap fun l => l.chars ++ [' ']) := by
  induction ls with
  | nil => exact .nil .nil
  | cons l ls ih =>
    rw [List.flatMap_cons, List.append_assoc]
    exact .cons .nil rfl (ih.blank rfl)

variable {c : Char} {cs rest gap : List Char} {l : Lexeme} {expecting : Expecting}

theorem isBlank_iff : isBlank c = true ↔ c = ' ' ∨ c = '\t' ∨ c = '\n' ∨ c = '\r' ∨ c = '\x0c' := by
  simp [isBlank, or_assoc]

theorem not_isWordChar_of_isBlank (h : isBlank c = true) : isWordChar c = false := by
  rcases isBlank_iff.mp h with rfl | rfl | rfl | rfl | rfl <;> decide

theorem not_isDigit_of_isBlank (h : isBlank c = true) : c.isDigit = false := by
  rcases isBlank_iff.mp h with rfl | rfl | rfl | rfl | rfl <;> decide

theorem not_isHexDigit_of_isBlank (h : isBlank c = true) : isHexDigit c = false := by
  rcases isBlank_iff.mp h with rfl | rfl | rfl | rfl | rfl <;> decide

theorem isWordChar_of_isWordStart (h : isWordStart c = true) : isWordChar c = true := by
  simp only [isWordStart, isWordChar, Char.isAlphanum, Bool.or_eq_true] at h ⊢
  rcases h with h | h
  · exact .inl (.inl h)
  · exact .inr h

theorem skipLayout_blank (p : Position) (h : isBlank c = true) :
    skipLayout p false (c :: rest) = skipLayout (p.step c) false rest := by
  have hslash : c ≠ '/' := by
    rintro rfl
    cases h
  rw [skipLayout.eq_3 p false c rest fun _ hc => absurd hc hslash]
  simp [h]

theorem skipLayout_skip (p : Position) (h : c ≠ '\n') :
    skipLayout p true (c :: rest) = skipLayout (p.step c) true rest := by
  induction rest generalizing p c with
  | nil => simp [skipLayout]
  | cons d rest ih =>
    by_cases hslashes : c = '/' ∧ d = '/'
    · obtain ⟨rfl, rfl⟩ := hslashes
      rw [skipLayout, ih (p.step '/') h]
    · rw [skipLayout.eq_3 p true c (d :: rest)]
      · simp [h]
      · intro rest' hc hd
        exact hslashes ⟨hc, (List.cons.inj hd).1⟩

theorem skipLayout_comment (p : Position) (rest : List Char) {body : List Char} (h : '\n' ∉ body) :
    ∃ q, skipLayout p true (body ++ '\n' :: rest) = skipLayout q false rest := by
  induction body generalizing p with
  | nil => exact ⟨p.step '\n', by simp [skipLayout]⟩
  | cons c body ih =>
    simp only [List.mem_cons, not_or] at h
    obtain ⟨q, hq⟩ := ih (p.step c) h.2
    refine ⟨q, ?_⟩
    rw [List.cons_append, skipLayout_skip p (Ne.symm h.1), hq]

theorem skipLayout_filler (p : Position) (rest : List Char) (h : Filler gap) :
    ∃ q, skipLayout p false (gap ++ rest) = skipLayout q false rest := by
  induction h generalizing p with
  | nil => exact ⟨p, rfl⟩
  | @blank c cs hc _ ih =>
    obtain ⟨q, hq⟩ := ih (p.step c)
    exact ⟨q, by rw [List.cons_append, skipLayout_blank p hc, hq]⟩
  | @comment body cs hbody _ ih =>
    obtain ⟨q, hq⟩ := skipLayout_comment ((p.step '/').step '/') (cs ++ rest) hbody
    obtain ⟨q', hq'⟩ := ih q
    refine ⟨q', ?_⟩
    rw [List.cons_append, List.cons_append, skipLayout, List.append_assoc, List.cons_append, hq,
      hq']

theorem skipLayout_stop (p : Position) (hblank : isBlank c = false)
    (hcomment : c = '/' → rest.head? ≠ some '/') :
    skipLayout p false (c :: rest) = (p, c :: rest) := by
  rw [skipLayout.eq_3]
  · simp [hblank]
  · rintro rest' hc rfl
    exact hcomment hc rfl

theorem takeWhile_before {f : Char → Bool} (hcs : cs.all f = true)
    (hrest : rest.head?.any f = false) : (cs ++ rest).takeWhile f = cs := by
  rw [List.takeWhile_append_of_pos (List.all_eq_true.mp hcs)]
  cases rest with
  | nil => simp
  | cons c rest => simp_all

theorem dropWhile_before {f : Char → Bool} (hcs : cs.all f = true)
    (hrest : rest.head?.any f = false) : (cs ++ rest).dropWhile f = rest := by
  rw [List.dropWhile_append_of_pos (List.all_eq_true.mp hcs)]
  cases rest with
  | nil => rfl
  | cons c rest => simp_all

theorem Ends.any {f : Char → Bool} (h : Ends rest) (hf : ∀ c, isBlank c = true → f c = false) :
    rest.head?.any f = false := by
  cases rest with
  | nil => rfl
  | cons c rest => exact hf c h

theorem Ends.ne (h : Ends rest) (hc : isBlank c = false) : rest.head? ≠ some c := by
  intro hrest
  simp [Ends, hrest, hc] at h

theorem Ends.stops (h : Ends rest) (l : Lexeme) : l.Stops rest := by
  cases l with
  | word cs => exact h.any fun _ => not_isWordChar_of_isBlank
  | integer digits =>
    refine h.any fun c hc => ?_
    rcases isBlank_iff.mp hc with rfl | rfl | rfl | rfl | rfl <;> decide
  | decimal whole fraction => exact h.any fun _ => not_isDigit_of_isBlank
  | hex digits => exact h.any fun _ => not_isHexDigit_of_isBlank
  | symbol s => exact ⟨fun _ => h.ne rfl, fun _ => h.ne rfl⟩

theorem Written.spells {ls : List Lexeme} (h : Written ls cs) : Spells ls cs := by
  induction h with
  | nil hgap => exact .nil hgap
  | cons hgap hends _ ih => exact .cons hgap (hends.stops _) ih

/-- What can come next forces a shorter lexeme. -/
def Cut (expecting : Expecting) : Lexeme → Prop
  | word ('f' :: 'n' :: _ :: _) => expecting = .declaration
  | hex _ => expecting = .magnitude
  | symbol .arrow => expecting = .sign
  | _ => False

theorem eq_functionWord (h : (word cs).WellFormed) (hstops : (word cs).Stops rest)
    (hcut : ¬ (word cs).Cut .declaration)
    (hfn : functionWord.isPrefixOf (cs ++ rest) = true) : cs = functionWord := by
  obtain _ | ⟨c, _ | ⟨d, cs⟩⟩ := cs
  · simp [WellFormed] at h
  · cases rest with
    | nil => simp [functionWord] at hfn
    | cons d rest =>
      obtain ⟨-, rfl⟩ : 'f' = c ∧ 'n' = d := by simpa [functionWord] using hfn
      cases hstops
  · obtain ⟨rfl, rfl⟩ : 'f' = c ∧ 'n' = d := by simpa [functionWord] using hfn
    cases cs with
    | nil => rfl
    | cons e cs => exact absurd rfl hcut

theorem not_cut_of_other (h : expecting = .other) : ¬ l.Cut expecting := by
  subst h
  simp only [Cut]
  split <;> simp

theorem readWord_before (h : (word cs).WellFormed) (hstops : (word cs).Stops rest)
    (hcut : ¬ (word cs).Cut expecting) : readWord expecting (cs ++ rest) = (word cs, rest) := by
  simp only [readWord]
  split
  · next hfn =>
    obtain ⟨rfl, hfn⟩ := hfn
    rw [eq_functionWord h hstops hcut hfn]
    rfl
  · rw [takeWhile_before h.2 hstops, dropWhile_before h.2 hstops]

theorem readPlainNumeral_integer {digits : List Char} (h : digits.all Char.isDigit = true)
    (hstops : (integer digits).Stops rest) :
    readPlainNumeral (digits ++ rest) = (integer digits, rest) := by
  have hdigit : rest.head?.any Char.isDigit = false := by
    cases rest with
    | nil => rfl
    | cons c rest => simp_all [Stops]
  simp only [readPlainNumeral, takeWhile_before h hdigit, dropWhile_before h hdigit]
  split
  · cases hstops
  · rfl

theorem readPlainNumeral_decimal {whole fraction : List Char}
    (h : (decimal whole fraction).WellFormed) (hstops : (decimal whole fraction).Stops rest) :
    readPlainNumeral (whole ++ '.' :: (fraction ++ rest)) = (decimal whole fraction, rest) := by
  obtain ⟨⟨-, hwhole⟩, hne, hfraction⟩ := h
  obtain ⟨d, tail, rfl⟩ := List.exists_cons_of_ne_nil hne
  simp only [List.all_cons, Bool.and_eq_true] at hfraction
  have hpoint : ('.' :: d :: (tail ++ rest)).head?.any Char.isDigit = false := rfl
  simp only [List.cons_append, readPlainNumeral, takeWhile_before hwhole hpoint,
    dropWhile_before hwhole hpoint, hfraction.1, if_true,
    takeWhile_before hfraction.2 hstops, dropWhile_before hfraction.2 hstops]

theorem readNumeral_plain (h : ∀ tail, cs ≠ '0' :: 'x' :: tail) :
    readNumeral expecting cs = readPlainNumeral cs := by
  rw [readNumeral.eq_2]
  rintro d tail rfl
  exact h _ rfl

theorem readNumeral_hex {digits : List Char} (h : (hex digits).WellFormed)
    (hstops : (hex digits).Stops rest) (hcut : expecting ≠ .magnitude) :
    readNumeral expecting ('0' :: 'x' :: (digits ++ rest)) = (hex digits, rest) := by
  obtain ⟨hne, hdigits⟩ := h
  obtain ⟨d, tail, rfl⟩ := List.exists_cons_of_ne_nil hne
  simp only [List.all_cons, Bool.and_eq_true] at hdigits
  simp only [readNumeral, List.cons_append, hdigits.1, hcut, ne_eq, not_false_eq_true, and_self,
    if_true, takeWhile_before hdigits.2 hstops, dropWhile_before hdigits.2 hstops]

theorem not_isWordStart_of_isDigit (h : c.isDigit = true) : isWordStart c = false := by
  have hunderscore : c ≠ '_' := by
    rintro rfl
    cases h
  delta isWordStart Char.isAlpha Char.isUpper Char.isLower
  delta Char.isDigit at h
  grind

theorem digits_not_hex {digits : List Char} (h : digits.all Char.isDigit = true) (hne : digits ≠ [])
    (hrest : rest.head? ≠ some 'x') (tail : List Char) : digits ++ rest ≠ '0' :: 'x' :: tail := by
  intro heq
  obtain _ | ⟨c, _ | ⟨d, digits⟩⟩ := digits
  · exact hne rfl
  · simp_all
  · obtain ⟨-, rfl, -⟩ : c = '0' ∧ d = 'x' ∧ _ := by simpa using heq
    simp [Char.isDigit] at h

theorem readSymbol?_symbol {s : Symbol} (hs : Symbol.ofChar? c = some s)
    (h : c = '-' → rest.head? ≠ some '>') :
    readSymbol? expecting c rest = some (symbol s, rest) := by
  rw [readSymbol?.eq_2]
  · rw [hs]
    rfl
  · rintro tail hc rfl
    exact h hc rfl

theorem read?_numeral (hc : c.isDigit = true) :
    read? expecting c rest = some (readNumeral expecting (c :: rest)) := by
  simp only [read?, not_isWordStart_of_isDigit hc, hc, if_true]
  rfl

theorem symbol_chars (s : Symbol) :
    s = .arrow ∨ ∃ c, s.chars = [c] ∧ Symbol.ofChar? c = some s ∧ isWordStart c = false ∧
      c.isDigit = false := by
  cases s <;> first | exact .inl rfl | exact .inr ⟨_, rfl, rfl, rfl, rfl⟩

theorem read?_symbol (hstart : isWordStart c = false) (hdigit : c.isDigit = false) :
    read? expecting c rest = readSymbol? expecting c rest := by
  simp [read?, hstart, hdigit]

theorem read?_before (hl : l.WellFormed) (hstops : l.Stops rest) (hchars : l.chars = c :: cs)
    (hcut : ¬ l.Cut expecting) : read? expecting c (cs ++ rest) = some (l, rest) := by
  cases l with
  | word cs' =>
    obtain rfl : cs' = c :: cs := hchars
    have hword := readWord_before hl hstops hcut
    have hstart : isWordStart c = true := by simpa using hl.1
    rw [read?, if_pos hstart, ← List.cons_append, hword]
  | integer digits =>
    obtain rfl : digits = c :: cs := hchars
    have hdigits := hl.2
    have hc : c.isDigit = true := List.all_eq_true.mp hdigits c List.mem_cons_self
    have hx : rest.head? ≠ some 'x' := by
      intro hx
      simp [Stops, hx] at hstops
    rw [read?_numeral hc, ← List.cons_append,
      readNumeral_plain (digits_not_hex hdigits (List.cons_ne_nil c cs) hx),
      readPlainNumeral_integer hdigits hstops]
  | decimal whole fraction =>
    obtain _ | ⟨c', whole⟩ := whole
    · exact absurd rfl hl.1.1
    obtain ⟨rfl, rfl⟩ : c' = c ∧ whole ++ '.' :: fraction = cs := by simpa [chars] using hchars
    have hwhole := hl.1.2
    have hc : c'.isDigit = true := List.all_eq_true.mp hwhole c' List.mem_cons_self
    rw [read?_numeral hc, List.append_assoc, List.cons_append, ← List.cons_append,
      readNumeral_plain (digits_not_hex hwhole (List.cons_ne_nil _ _) (by simp)),
      readPlainNumeral_decimal hl hstops]
  | hex digits =>
    obtain ⟨rfl, rfl⟩ : '0' = c ∧ 'x' :: digits = cs := by simpa [chars] using hchars
    rw [read?_numeral rfl, List.cons_append, readNumeral_hex hl hstops hcut]
  | symbol s =>
    rcases symbol_chars s with rfl | ⟨c', hc, hs, hstart, hdigit⟩
    · obtain ⟨rfl, rfl⟩ : '-' = c ∧ ['>'] = cs := List.cons.inj hchars
      rw [read?_symbol rfl rfl]
      exact if_neg hcut
    · obtain ⟨rfl, rfl⟩ := List.cons.inj (hc.symm.trans hchars)
      have harrow : c' = '-' → rest.head? ≠ some '>' := by
        rintro rfl
        exact hstops.1 (Option.some.inj hs.symm)
      rw [read?_symbol hstart hdigit, List.nil_append, readSymbol?_symbol hs harrow]

theorem not_isBlank_of_isWordChar (h : isWordChar c = true) : isBlank c = false := by
  cases hblank : isBlank c with
  | false => rfl
  | true => simp [not_isWordChar_of_isBlank hblank] at h

theorem isWordChar_of_isDigit (h : c.isDigit = true) : isWordChar c = true := by
  simp [isWordChar, Char.isAlphanum, h]

theorem begins_of_isWordChar (hchars : l.chars = c :: cs) (hc : isWordChar c = true) :
    ∃ c cs, l.chars = c :: cs ∧ isBlank c = false ∧ (c = '/' → l = symbol .slash) := by
  refine ⟨c, cs, hchars, not_isBlank_of_isWordChar hc, ?_⟩
  rintro rfl
  cases hc

theorem begins_of_digits {digits : List Char} (hne : digits ≠ [])
    (hdigits : digits.all Char.isDigit = true) (hchars : l.chars = digits ++ rest) :
    ∃ c cs, l.chars = c :: cs ∧ isBlank c = false ∧ (c = '/' → l = symbol .slash) := by
  obtain ⟨d, digits, rfl⟩ := List.exists_cons_of_ne_nil hne
  exact begins_of_isWordChar hchars
    (isWordChar_of_isDigit (List.all_eq_true.mp hdigits d List.mem_cons_self))

theorem WellFormed.begins (hl : l.WellFormed) :
    ∃ c cs, l.chars = c :: cs ∧ isBlank c = false ∧ (c = '/' → l = symbol .slash) := by
  cases l with
  | word cs =>
    obtain _ | ⟨c, cs⟩ := cs
    · simp [WellFormed] at hl
    · exact begins_of_isWordChar rfl (isWordChar_of_isWordStart (by simpa using hl.1))
  | integer digits => exact begins_of_digits hl.1 hl.2 (List.append_nil digits).symm
  | decimal whole fraction => exact begins_of_digits hl.1.1 hl.1.2 rfl
  | hex digits => exact begins_of_isWordChar rfl (by decide)
  | symbol s => cases s <;> exact ⟨_, _, rfl, rfl, by simp⟩

theorem readNumeral_ne_word {cs' : List Char} : (readNumeral expecting cs).1 ≠ word cs' := by
  have hplain : (readPlainNumeral cs).1 ≠ word cs' := by
    simp only [readPlainNumeral]
    repeat' split
    all_goals simp
  simp only [readNumeral]
  split
  · split
    · simp
    · exact hplain
  · exact hplain

theorem readSymbol?_eq_symbol {after : List Char}
    (h : readSymbol? expecting c rest = some (l, after)) : ∃ s, l = symbol s := by
  simp only [readSymbol?] at h
  split at h
  · split at h <;> exact ⟨_, (Prod.mk.inj (Option.some.inj h)).1.symm⟩
  · obtain ⟨s, -, hs⟩ := Option.map_eq_some_iff.mp h
    exact ⟨s, (Prod.mk.inj hs).1.symm⟩

theorem read?_ne_word {after cs' : List Char} (hstart : isWordStart c = false)
    (h : read? expecting c rest = some (l, after)) : l ≠ word cs' := by
  simp only [read?, hstart, Bool.false_eq_true, if_false] at h
  split at h
  · rw [← (Prod.mk.inj (Option.some.inj h)).1]
    exact readNumeral_ne_word
  · obtain ⟨s, rfl⟩ := readSymbol?_eq_symbol h
    simp

theorem read?_joined : read? .declaration 'f' ('n' :: rest) = some (word functionWord, rest) := by
  simp [read?, isWordStart, readWord, functionWord]

theorem read?_zero : read? .magnitude '0' ('x' :: rest) = some (integer ['0'], 'x' :: rest) := by
  have hplain : readPlainNumeral ('0' :: 'x' :: rest) = (integer ['0'], 'x' :: rest) := by
    simp [readPlainNumeral]
  rw [read?_numeral rfl]
  simp only [readNumeral]
  split
  · simp [hplain]
  · rw [hplain]

theorem read?_minus : read? .sign '-' ('>' :: rest) = some (symbol .minus, '>' :: rest) := by
  rw [read?_symbol rfl rfl]
  rfl

end Lexeme

namespace Pending

variable {file : Option String} {p : Pending} {t : Token} {g : Progress}

theorem step_arrow (hl : t.lexeme = .symbol .arrow) : p.step file t ≠ .ok g := by
  intro h
  simp only [step] at h
  split at h <;> simp [stepStart, stepSign, stepOperand, hl, Token.unexpected] at h

theorem step_hex {start : Position} {digits : List Char} (hf : p.focus = .sign start)
    (hl : t.lexeme = .hex digits) : p.step file t ≠ .ok g := by
  simp [step, hf, stepSign, hl, Token.unexpected]

theorem step_word {o : Operand} {cs : List Char} (hf : p.focus = .operand o)
    (hl : t.lexeme = .word cs) : p.step file t ≠ .ok g := by
  simp [step, hf, stepOperand, hl, Token.unexpected]

end Pending

theorem Mode.top_of_expecting {m : Mode} (h : m.expecting = .declaration) :
    ∃ heading, m = .top heading := by
  cases m with
  | top heading => exact ⟨heading, rfl⟩
  | expr b start purpose p =>
    simp only [Mode.expecting, Pending.expecting] at h
    split at h <;> cases h
  | _ => cases h

theorem Mode.sign_of_expecting {m : Mode} (h : m.expecting = .magnitude) :
    ∃ b start purpose p s, m = .expr b start purpose p ∧ p.focus = .sign s := by
  cases m with
  | expr b start purpose p =>
    simp only [Mode.expecting, Pending.expecting] at h
    split at h
    · next s hs => exact ⟨b, start, purpose, p, s, rfl, hs⟩
    · cases h
  | _ => cases h

namespace Reader

open Lexeme

variable {file : Option String} {r r' : Reader} {p q : Position} {c : Char}
  {cs gap rest : List Char} {l : Lexeme} {ls : List Lexeme} {t : Token}

theorem run_end (h : skipLayout p false cs = (q, [])) : r.run file p cs = .ok r := by
  rw [run]
  split
  · rfl
  · next start c rest hskip => simp [h] at hskip

theorem run_eq_ok (h : skipLayout p false cs = (q, c :: rest)) :
    r.run file p cs = .ok r' ↔
      ∃ l after r₁, read? r.mode.expecting c rest = some (l, after) ∧
        r.step file ⟨l, q, q.after l.chars⟩ = .ok r₁ ∧
        r₁.run file (q.after l.chars) after = .ok r' := by
  rw [run]
  split
  · next hskip => simp [h] at hskip
  · next hskip =>
    obtain ⟨rfl, rfl, rfl⟩ : _ ∧ _ ∧ _ := by simpa [h] using hskip
    split
    · next hlexed => simp [hlexed]
    · next l after hlexed =>
      simp only [hlexed, Option.some.injEq, Prod.mk.injEq]
      cases hstep : r.step file ⟨l, q, q.after l.chars⟩ <;> grind

theorem run_eq_ok_of_read {after : List Char} (h : skipLayout p false cs = (q, c :: rest))
    (hread : read? r.mode.expecting c rest = some (l, after)) :
    r.run file p cs = .ok r' ↔
      ∃ r₁, r.step file ⟨l, q, q.after l.chars⟩ = .ok r₁ ∧
        r₁.run file (q.after l.chars) after = .ok r' := by
  rw [run_eq_ok h]
  constructor
  · rintro ⟨_, _, r₁, hread', hstep, hrun⟩
    obtain ⟨rfl, rfl⟩ := Prod.mk.inj (Option.some.inj (hread.symm.trans hread'))
    exact ⟨r₁, hstep, hrun⟩
  · rintro ⟨r₁, hstep, hrun⟩
    exact ⟨l, after, r₁, hread, hstep, hrun⟩

theorem take_of_not_cut (h : ¬ t.lexeme.Cut r.mode.expecting) : r.take file t = r.step file t := by
  simp only [take]
  split
  · next hm hl => exact absurd (by rw [hm, hl]; rfl) h
  · rfl

theorem take_of_expecting (h : r.mode.expecting ≠ .declaration) :
    r.take file t = r.step file t :=
  take_eq_step fun _ hm => h (by rw [hm]; rfl)

theorem skipLayout_before (p : Position) (hgap : Filler gap) (hl : l.WellFormed)
    (hstops : l.Stops rest) (hchars : l.chars = c :: cs) :
    ∃ q, skipLayout p false (gap ++ l.chars ++ rest) = (q, c :: (cs ++ rest)) := by
  obtain ⟨q, hq⟩ := skipLayout_filler p (l.chars ++ rest) hgap
  obtain ⟨_, _, hbegins, hblank, hslash⟩ := hl.begins
  obtain ⟨rfl, rfl⟩ := List.cons.inj (hbegins.symm.trans hchars)
  refine ⟨q, ?_⟩
  rw [List.append_assoc, hq, hchars, List.cons_append, skipLayout_stop q hblank]
  rintro rfl
  obtain rfl := hslash rfl
  obtain ⟨-, rfl⟩ := List.cons.inj hchars
  exact hstops.2 rfl

theorem step_expr {b : Body} {start : Position} {purpose : Purpose} {p : Pending}
    (hm : r.mode = .expr b start purpose p) (h : r.step file t = .ok r') :
    ∃ g, p.step file t = .ok g ∧ ∀ p', g = .more p' → r'.mode = .expr b start purpose p' := by
  obtain ⟨r₁, hmode, rfl⟩ := step_eq_ok.mp h
  simp only [stepMode, hm, stepExpr_eq_ok] at hmode
  rcases hmode with ⟨p', hstep, rfl⟩ | ⟨o, fault, hstep, rfl⟩
  · exact ⟨_, hstep, by simp⟩
  · exact ⟨_, hstep, by simp⟩

theorem take_arrow (he : r.mode.expecting = .sign) (hl : t.lexeme = .symbol .arrow) :
    r.take file t ≠ .ok r' := by
  have hexpr : ∀ (b : Body) (start : Position) (purpose : Purpose) (p : Pending) (r₁ : Reader),
      r.stepExpr file b start purpose p t ≠ .ok r₁ := by
    intro b start purpose p r₁ h
    rcases stepExpr_eq_ok.mp h with ⟨_, h, -⟩ | ⟨_, _, h, -⟩ <;> exact Pending.step_arrow hl h
  rw [take_of_expecting (by rw [he]; simp)]
  intro h
  obtain ⟨r₁, hmode, rfl⟩ := step_eq_ok.mp h
  cases hm : r.mode with
  | stmt b => exact hexpr _ _ _ _ _ (by simpa [stepMode, hm, stepStmt, hl] using hmode)
  | retValue b start => exact hexpr _ _ _ _ _ (by simpa [stepMode, hm, hl] using hmode)
  | expr b start purpose p => exact hexpr _ _ _ _ _ (by simpa [stepMode, hm] using hmode)
  | _ =>
    rw [hm] at he
    cases he

theorem run_arrow {text : List Char} (he : r.mode.expecting = .sign)
    (hskip : skipLayout p false text = (q, '-' :: '>' :: rest)) :
    r.run file p text ≠ .ok r' := by
  intro h
  obtain ⟨r₁, -, h⟩ := (run_eq_ok_of_read hskip (he ▸ read?_minus)).mp h
  obtain ⟨l, after, r₂, hread, -⟩ := (run_eq_ok (skipLayout_stop _ rfl (by simp))).mp h
  rw [read?_symbol rfl rfl] at hread
  cases hread

theorem take_hex {digits : List Char} (he : r.mode.expecting = .magnitude)
    (hl : t.lexeme = .hex digits) : r.take file t ≠ .ok r' := by
  rw [take_of_expecting (by rw [he]; simp)]
  intro h
  obtain ⟨b, start, purpose, p, s, hm, hs⟩ := Mode.sign_of_expecting he
  obtain ⟨g, hstep, -⟩ := step_expr hm h
  exact Pending.step_hex hs hl hstep

theorem run_hex {text : List Char} (he : r.mode.expecting = .magnitude)
    (hskip : skipLayout p false text = (q, '0' :: 'x' :: rest)) : r.run file p text ≠ .ok r' := by
  intro h
  obtain ⟨b, start, purpose, p, s, hm, hs⟩ := Mode.sign_of_expecting he
  obtain ⟨r₁, hstep, h⟩ := (run_eq_ok_of_read hskip (he ▸ read?_zero)).mp h
  obtain ⟨l, after, r₂, hread, hstep', -⟩ := (run_eq_ok (skipLayout_stop _ rfl (by simp))).mp h
  obtain ⟨g, hzero, hmode⟩ := step_expr hm hstep
  obtain ⟨c, -, rfl⟩ := Pending.stepSign_eq_ok (by simpa only [Pending.step, hs] using hzero)
  obtain ⟨o, ho, -⟩ := Pending.constant_focus file p c ⟨s, q.after (integer ['0']).chars⟩
  obtain ⟨g', hword, -⟩ := step_expr (hmode _ rfl) hstep'
  have hexpecting : r₁.mode.expecting = .sign := by
    rw [hmode _ rfl, Mode.expecting, Pending.expecting, ho]
  obtain ⟨rfl, -⟩ : _ ∧ _ := by
    simpa [hexpecting, read?, isWordStart, readWord] using hread
  exact Pending.step_word ho rfl hword

theorem run_joined {h : Heading} {text : List Char} (hm : r.mode = .top h)
    (hl : (word ('f' :: 'n' :: c :: cs)).WellFormed)
    (hstops : (word ('f' :: 'n' :: c :: cs)).Stops rest)
    (hskip : skipLayout p false text = (q, 'f' :: 'n' :: c :: (cs ++ rest))) :
    r.run file p text = .ok r' ↔
      ∃ r₁,
        r.take file ⟨.word ('f' :: 'n' :: c :: cs), q, q.after ('f' :: 'n' :: c :: cs)⟩ = .ok r₁ ∧
        r₁.run file (q.after ('f' :: 'n' :: c :: cs)) rest = .ok r' := by
  obtain ⟨-, -, hc, hchars⟩ : isWordChar 'f' = true ∧ isWordChar 'n' = true ∧
      isWordChar c = true ∧ cs.all isWordChar = true := by
    simpa only [List.all_cons, Bool.and_eq_true] using hl.2
  have hstop : ∀ q', skipLayout q' false (c :: (cs ++ rest)) = (q', c :: (cs ++ rest)) := by
    intro q'
    refine skipLayout_stop q' (not_isBlank_of_isWordChar hc) ?_
    rintro rfl
    cases hc
  have hread : read? r.mode.expecting 'f' ('n' :: c :: (cs ++ rest)) =
      some (word functionWord, c :: (cs ++ rest)) := by
    rw [hm]
    exact read?_joined
  have hfirst : ∀ t : Token, t.lexeme = word functionWord → r.step file t =
      .ok { r with mode := .functionName h (h.start.getD t.start), last := t.start } := by
    intro t ht
    simp only [step, stepMode, hm, ht]
    rfl
  rw [run_eq_ok_of_read hskip hread]
  simp only [hfirst, Except.ok.injEq, exists_eq_left', take, hm]
  split
  · next hstart =>
    have hl' : (word (c :: cs)).WellFormed := ⟨by simpa using hstart, by simp [hc, hchars]⟩
    rw [run_eq_ok_of_read (hstop _) (read?_before hl' hstops rfl (not_cut_of_other rfl))]
    rfl
  · next hstart =>
    constructor
    · intro hrun
      obtain ⟨l, after, r₁, hread', hstep, -⟩ := (run_eq_ok (hstop _)).mp hrun
      obtain ⟨r₂, hstep, -⟩ := step_eq_ok.mp hstep
      obtain ⟨cs', hl', -⟩ := goto_name_eq_ok.mp hstep
      exact absurd hl' (read?_ne_word (by simpa using hstart) hread')
    · rintro ⟨r₁, htake, -⟩
      cases htake

/-- A text is read lexeme by lexeme, whatever the reader expects. -/
theorem run_before (p : Position) (hgap : Filler gap) (hl : l.WellFormed) (hstops : l.Stops rest) :
    ∃ q, ∀ r r' : Reader, r.run file p (gap ++ l.chars ++ rest) = .ok r' ↔
      ∃ r₁, r.take file ⟨l, q, q.after l.chars⟩ = .ok r₁ ∧
        r₁.run file (q.after l.chars) rest = .ok r' := by
  obtain ⟨c, cs, hchars, -⟩ := hl.begins
  obtain ⟨q, hskip⟩ := skipLayout_before p hgap hl hstops hchars
  refine ⟨q, fun r r' => ?_⟩
  by_cases hcut : l.Cut r.mode.expecting
  · simp only [Cut] at hcut
    split at hcut
    · obtain ⟨h, hm⟩ := Mode.top_of_expecting hcut
      obtain ⟨rfl, rfl⟩ := List.cons.inj hchars
      exact run_joined hm hl hstops hskip
    · obtain ⟨rfl, rfl⟩ := List.cons.inj hchars
      refine iff_of_false (run_hex hcut hskip) ?_
      rintro ⟨r₁, htake, -⟩
      exact take_hex hcut rfl htake
    · obtain ⟨rfl, rfl⟩ := List.cons.inj hchars
      refine iff_of_false (run_arrow hcut hskip) ?_
      rintro ⟨r₁, htake, -⟩
      exact take_arrow hcut rfl htake
    · exact hcut.elim
  · rw [run_eq_ok_of_read hskip (read?_before hl hstops hchars hcut), take_of_not_cut hcut]

theorem run_iff_takes (file : Option String) {text : List Char} (hs : Spells ls text)
    (hls : ∀ l ∈ ls, l.WellFormed) (p : Position) :
    ∃ ts : List Token, ts.map Token.lexeme = ls ∧
      ∀ r r' : Reader, r.run file p text = .ok r' ↔ ts.foldlM (take file) r = .ok r' := by
  induction hs generalizing p with
  | nil hgap =>
    obtain ⟨q, hq⟩ := skipLayout_filler p [] hgap
    refine ⟨[], rfl, fun r r' => ?_⟩
    rw [run_end (by simpa [skipLayout] using hq)]
    rfl
  | @cons _ _ l _ hgap hstops _ ih =>
    rw [List.forall_mem_cons] at hls
    obtain ⟨q, hrun⟩ := run_before p hgap hls.1 hstops
    obtain ⟨ts, rfl, hts⟩ := ih hls.2 (q.after l.chars)
    refine ⟨⟨l, q, q.after l.chars⟩ :: ts, rfl, fun r r' => ?_⟩
    rw [hrun, List.foldlM_cons]
    cases r.take file _ with
    | error e => simp [bind, Except.bind]
    | ok r₁ => simpa [bind, Except.bind] using hts r₁ r'

end Reader

end ContractGuard
