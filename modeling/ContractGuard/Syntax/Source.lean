import ContractGuard.Syntax.Reader

/-!
# Reading a source text

Either the declarations of the text or one diagnostic. Reading drives the reader
with one lexeme after the other; every lexeme is at least one character long.
-/

namespace ContractGuard

namespace Lexeme

theorem length_skipLayout (p : Position) (inComment : Bool) (cs : List Char) :
    (skipLayout p inComment cs).2.length ≤ cs.length := by
  fun_induction skipLayout p inComment cs <;> simp_all <;> omega

theorem length_dropWhile_le {α : Type} (f : α → Bool) (xs : List α) :
    (xs.dropWhile f).length ≤ xs.length :=
  (List.dropWhile_sublist f).length_le

theorem length_readWord (expecting : Expecting) {c : Char} (rest : List Char)
    (h : isWordChar c = true) : (readWord expecting (c :: rest)).2.length ≤ rest.length := by
  unfold readWord
  split
  · simp [functionWord]
  · simpa [List.dropWhile_cons, h] using length_dropWhile_le isWordChar rest

theorem length_readPlainNumeral {c : Char} {rest : List Char} (h : c.isDigit = true) :
    (readPlainNumeral (c :: rest)).2.length ≤ rest.length := by
  have tail : ((c :: rest).dropWhile Char.isDigit).length ≤ rest.length := by
    simpa [List.dropWhile_cons, h] using length_dropWhile_le Char.isDigit rest
  unfold readPlainNumeral
  generalize (c :: rest).dropWhile Char.isDigit = left at tail ⊢
  dsimp only
  split
  · rename_i d after
    split
    · have := length_dropWhile_le Char.isDigit after
      simp only [List.length_cons] at tail ⊢
      omega
    · exact tail
  · exact tail

theorem length_readNumeral (expecting : Expecting) {c : Char} (rest : List Char)
    (h : c.isDigit = true) : (readNumeral expecting (c :: rest)).2.length ≤ rest.length := by
  unfold readNumeral
  split
  · rename_i d after same
    obtain ⟨rfl, rfl⟩ := List.cons.inj same
    split
    · have := length_dropWhile_le isHexDigit after
      simp
      omega
    · exact length_readPlainNumeral h
  · exact length_readPlainNumeral h

theorem length_readSymbol? {expecting : Expecting} {c : Char} {rest after : List Char}
    {l : Lexeme} (h : readSymbol? expecting c rest = some (l, after)) :
    after.length ≤ rest.length := by
  unfold readSymbol? at h
  split at h
  · split at h <;> simp at h <;> simp [← h.2]
  · simp at h
    obtain ⟨_, _, _, rfl⟩ := h
    exact Nat.le_refl _

theorem length_read? {expecting : Expecting} {c : Char} {rest after : List Char} {l : Lexeme}
    (h : read? expecting c rest = some (l, after)) : after.length ≤ rest.length := by
  unfold read? at h
  split at h
  · rename_i start
    have : isWordChar c = true := by
      simp only [isWordStart, isWordChar, Char.isAlphanum, Bool.or_eq_true] at start ⊢
      rcases start with start | start
      · exact .inl (.inl start)
      · exact .inr start
    simp only [Option.some.injEq] at h
    have bound := length_readWord expecting rest this
    rwa [h] at bound
  · split at h
    · rename_i digit
      simp only [Option.some.injEq] at h
      have bound := length_readNumeral expecting rest digit
      rwa [h] at bound
    · exact length_readSymbol? h

end Lexeme

def Reader.run (file : Option String) (r : Reader) (p : Position) (cs : List Char) :
    Except SyntaxFault Reader :=
  match _skipped : Lexeme.skipLayout p false cs with
  | (_, []) => .ok r
  | (start, c :: rest) =>
    match _lexed : Lexeme.read? r.mode.expecting c rest with
    | none => .error (.stray c start)
    | some (lexeme, after) =>
      let stop := start.after lexeme.chars
      match r.step file ⟨lexeme, start, stop⟩ with
      | .ok r => r.run file stop after
      | .error fault => .error fault
termination_by cs.length
decreasing_by
  have kept := Lexeme.length_skipLayout p false cs
  have shorter := Lexeme.length_read? _lexed
  rw [_skipped] at kept
  simp only [List.length_cons] at kept
  omega

def Reader.read (file : Option String) (cs : List Char) : Except SyntaxFault Reader := do
  let r ← Reader.run file {} .first cs
  let _ ← r.finish
  return r

namespace SyntaxFault

def endsLine (c : Char) : Bool :=
  c = '\x0b' || ('\x1c' ≤ c && c ≤ '\x1e') || c = '\u0085' || c = '\u2028' || c = '\u2029'

def position : SyntaxFault → Position
  | stray _ p => p
  | unexpected _ _ p => p

def message : SyntaxFault → String
  | stray c p =>
    "syntax error: No terminal matches '" ++
      if endsLine c then ""
      else String.ofList [c] ++ "' in the current parser context, at line " ++ toString p.line ++
        " col " ++ toString p.column
  | unexpected terminal cs p =>
    "syntax error: Unexpected token Token('" ++ terminal ++ "', " ++
      Text.quoted (String.ofList cs) ++ ") at line " ++ toString p.line ++ ", column " ++
      toString p.column ++ "."

end SyntaxFault

/-- The wording of a numeral's fault; a signal has none. -/
def NumeralFault.message? : NumeralFault → Except Signal String
  | tooManyDigits count =>
    .ok ("integer literal with " ++ toString count ++ " digits does not fit any integer type")
  | oddDigits text => .ok ("hex literal '" ++ text ++ "' has an odd number of digits")
  | noByteType length =>
    .ok ("no byte sequence type holds " ++ toString length ++ " bytes")
  | signal s => .error s

inductive Reading where
  | declarations (decls : List FunctionDecl)
  | refused (d : Diagnostic)
deriving DecidableEq

namespace Reading

def refuse (message : String) (span : Span) : Reading :=
  refused { message, code := some "ParseError", phase := some "parse", span }

def ofSource (source : String) (file : Option String) : Except Fault Reading :=
  match Reader.read file source.toList with
  | .error fault =>
    let p := fault.position
    .ok (refuse fault.message { file, line := some p.line, column := some p.column })
  | .ok r =>
    match r.fault with
    | none => .ok (declarations r.functions)
    | some e =>
      match e.fault.message? with
      | .ok message => .ok (refuse message e.span)
      | .error s => .error (.signal s)

end Reading

end ContractGuard
