import ContractGuard.Proofs.Syntax.Shift
import ContractGuard.Proofs.Syntax.Typed

/-!
# One text below the other

A newline ends every lexeme and every comment, so a text with a newline after it is read as
it is alone. What stands below is read by a reader that is where it would begin, only further
down.
-/

namespace ContractGuard

theorem Position.after_append (p : Position) (as bs : List Char) :
    p.after (as ++ bs) = (p.after as).after bs :=
  List.foldl_append

theorem Position.after_newline (p : Position) (cs : List Char) :
    p.after (cs ++ ['\n']) = ⟨p.line + (cs.count '\n' + 1), 1⟩ := by
  induction cs generalizing p with
  | nil => rfl
  | cons c cs ih =>
    refine (ih (p.step c)).trans ?_
    by_cases hc : c = '\n'
    · subst hc
      simp only [step, if_true, List.count_cons_self, Position.mk.injEq, and_true]
      omega
    · rw [List.count_cons_of_ne hc]
      simp only [step, hc, if_false]

namespace Lexeme

variable {f : Char → Bool} {expecting : Expecting} {c : Char} {cs rest after : List Char}
  {l : Lexeme}

theorem skipLayout_after (p : Position) (inComment : Bool) (cs : List Char) :
    (skipLayout p inComment cs).1.after (skipLayout p inComment cs).2 = p.after cs := by
  fun_induction skipLayout p inComment cs with
  | case1 => rfl
  | case2 _ _ _ ih => exact ih
  | case3 _ _ _ _ ih => exact ih
  | case4 _ _ _ _ _ _ _ ih => exact ih
  | case5 => rfl

theorem eq_cons_of_newline {tail : List Char} (hc : c ≠ '\n')
    (h : cs ++ '\n' :: rest = c :: tail) :
    ∃ tail', cs = c :: tail' ∧ tail' ++ '\n' :: rest = tail := by
  cases cs with
  | nil => exact absurd (List.cons.inj h).1.symm hc
  | cons d cs =>
    obtain ⟨rfl, htail⟩ := List.cons.inj h
    exact ⟨cs, rfl, htail⟩

theorem skipLayout_newline (p : Position) (inComment : Bool) (rest : List Char) :
    skipLayout p inComment ('\n' :: rest) = skipLayout (p.step '\n') false rest := by
  rw [skipLayout.eq_3 p inComment '\n' rest fun _ hc => absurd hc (by decide)]
  cases inComment <;> rfl

theorem skipLayout_append (p : Position) (inComment : Bool) (cs rest : List Char) :
    skipLayout p inComment (cs ++ '\n' :: rest) =
      match skipLayout p inComment cs with
      | (q, []) => skipLayout (q.step '\n') false rest
      | (q, c :: after) => (q, c :: (after ++ '\n' :: rest)) := by
  have hnext : ∀ {c : Char} {cs : List Char},
      (∀ tail, c = '/' → cs = '/' :: tail → False) →
      ∀ tail, c = '/' → cs ++ '\n' :: rest = '/' :: tail → False := by
    intro c cs h tail hc hcs
    obtain ⟨tail', hcs, -⟩ := eq_cons_of_newline (by decide) hcs
    exact h tail' hc hcs
  fun_induction skipLayout p inComment cs with
  | case1 p inComment => exact skipLayout_newline p inComment rest
  | case2 p inComment cs ih => exact ih
  | case3 p c cs h ih =>
    rw [List.cons_append, skipLayout.eq_3 p true c _ (hnext h), if_pos rfl, ih]
  | case4 p inComment c cs h hcomment hblank ih =>
    rw [List.cons_append, skipLayout.eq_3 p inComment c _ (hnext h), if_neg hcomment,
      if_pos hblank, ih]
  | case5 p inComment c cs h hcomment hblank =>
    rw [List.cons_append, skipLayout.eq_3 p inComment c _ (hnext h), if_neg hcomment,
      if_neg hblank]

theorem takeWhile_newline (hf : f '\n' = false) (cs rest : List Char) :
    (cs ++ '\n' :: rest).takeWhile f = cs.takeWhile f := by
  induction cs with
  | nil => exact List.takeWhile_cons_of_neg (by simp [hf])
  | cons c cs ih => simp only [List.cons_append, List.takeWhile_cons, ih]

theorem dropWhile_newline (hf : f '\n' = false) (cs rest : List Char) :
    (cs ++ '\n' :: rest).dropWhile f = cs.dropWhile f ++ '\n' :: rest := by
  induction cs with
  | nil => exact List.dropWhile_cons_of_neg (by simp [hf])
  | cons c cs ih =>
    simp only [List.cons_append, List.dropWhile_cons, ih]
    split <;> rfl

theorem readWord_newline (expecting : Expecting) (cs rest : List Char) :
    readWord expecting (cs ++ '\n' :: rest) =
      ((readWord expecting cs).1, (readWord expecting cs).2 ++ '\n' :: rest) := by
  have hprefix : functionWord.isPrefixOf (cs ++ '\n' :: rest) = functionWord.isPrefixOf cs := by
    obtain _ | ⟨c, _ | ⟨d, cs⟩⟩ := cs <;> simp [functionWord, List.isPrefixOf]
  simp only [readWord, hprefix]
  split
  · next h =>
    obtain ⟨tail, rfl⟩ := List.isPrefixOf_iff_prefix.mp h.2
    simp
  · rw [takeWhile_newline rfl, dropWhile_newline rfl]

theorem readPlainNumeral_newline (cs rest : List Char) :
    readPlainNumeral (cs ++ '\n' :: rest) =
      ((readPlainNumeral cs).1, (readPlainNumeral cs).2 ++ '\n' :: rest) := by
  simp only [readPlainNumeral, takeWhile_newline (f := Char.isDigit) rfl,
    dropWhile_newline (f := Char.isDigit) rfl]
  generalize cs.dropWhile Char.isDigit = left
  obtain _ | ⟨c, left⟩ := left
  · rfl
  by_cases hc : c = '.'
  · subst hc
    obtain _ | ⟨d, tail⟩ := left
    · rfl
    · simp only [List.cons_append, takeWhile_newline (f := Char.isDigit) rfl,
        dropWhile_newline (f := Char.isDigit) rfl]
      split <;> rfl
  · simp [hc]

theorem readNumeral_newline (expecting : Expecting) (cs rest : List Char) :
    readNumeral expecting (cs ++ '\n' :: rest) =
      ((readNumeral expecting cs).1, (readNumeral expecting cs).2 ++ '\n' :: rest) := by
  by_cases hhex : ∃ tail, cs = '0' :: 'x' :: tail
  · obtain ⟨_ | ⟨d, tail⟩, rfl⟩ := hhex
    · exact (if_neg (by simp [isHexDigit, Char.isDigit])).trans (readPlainNumeral_newline _ _)
    · simp only [List.cons_append, readNumeral, takeWhile_newline (f := isHexDigit) rfl,
        dropWhile_newline (f := isHexDigit) rfl]
      split
      · rfl
      · exact readPlainNumeral_newline ('0' :: 'x' :: d :: tail) rest
  · have hplain : ∀ tail, cs ++ '\n' :: rest ≠ '0' :: 'x' :: tail := by
      intro tail heq
      obtain ⟨cs', hcs, heq⟩ := eq_cons_of_newline (by decide) heq
      obtain ⟨tail', hcs', -⟩ := eq_cons_of_newline (by decide) heq
      exact hhex ⟨tail', by rw [hcs, hcs']⟩
    rw [readNumeral_plain hplain, readNumeral_plain fun tail heq => hhex ⟨tail, heq⟩]
    exact readPlainNumeral_newline cs rest

theorem readSymbol?_newline (h : readSymbol? expecting c cs = some (l, after)) :
    readSymbol? expecting c (cs ++ '\n' :: rest) = some (l, after ++ '\n' :: rest) := by
  by_cases harrow : c = '-' ∧ ∃ tail, cs = '>' :: tail
  · obtain ⟨rfl, tail, rfl⟩ := harrow
    simp only [List.cons_append, readSymbol?] at h ⊢
    split at h <;> obtain ⟨rfl, rfl⟩ := Prod.mk.inj (Option.some.inj h) <;> simp [*]
  · rw [readSymbol?.eq_2 _ _ _ fun tail hc hcs => harrow ⟨hc, tail, hcs⟩] at h
    obtain ⟨s, hs, hl⟩ := Option.map_eq_some_iff.mp h
    obtain ⟨rfl, rfl⟩ := Prod.mk.inj hl
    refine readSymbol?_symbol hs fun hc hhead => ?_
    obtain ⟨tail, hcs⟩ := List.head?_eq_some_iff.mp hhead
    obtain ⟨tail, hcs, -⟩ := eq_cons_of_newline (by decide) hcs
    exact harrow ⟨hc, tail, hcs⟩

theorem read?_newline (h : read? expecting c cs = some (l, after)) :
    read? expecting c (cs ++ '\n' :: rest) = some (l, after ++ '\n' :: rest) := by
  simp only [read?] at h ⊢
  split at h
  · next hstart =>
    rw [if_pos hstart, ← List.cons_append, readWord_newline, Option.some.inj h]
  · next hstart =>
    rw [if_neg hstart]
    split at h
    · next hdigit =>
      rw [if_pos hdigit, ← List.cons_append, readNumeral_newline, Option.some.inj h]
    · next hdigit =>
      rw [if_neg hdigit]
      exact readSymbol?_newline h

end Lexeme

namespace Reader

open Lexeme

variable {file : Option String} {r r₁ r₂ : Reader} {p : Position} {cs rest : List Char}

theorem run_append (h : r.run file p cs = .ok r₁) :
    r.run file p (cs ++ '\n' :: rest) = .ok r₂ ↔
      r₁.run file (p.after (cs ++ ['\n'])) rest = .ok r₂ := by
  fun_induction Reader.run file r p cs with
  | case1 r p cs start hskip =>
    obtain rfl := Except.ok.inj h
    -- Nothing but layout is left, and the newline ends it also inside a comment.
    have hstart := skipLayout_after p false cs
    have hskip' := skipLayout_append p false cs rest
    rw [hskip] at hstart hskip'
    obtain rfl : start = p.after cs := hstart
    have hnewline : (p.after cs).step '\n' = p.after (cs ++ ['\n']) :=
      (Position.after_append p cs ['\n']).symm
    rw [← hnewline]
    rcases hrest : skipLayout ((p.after cs).step '\n') false rest with ⟨q, _ | ⟨c, left⟩⟩
    · rw [run_end (hskip'.trans hrest), run_end hrest]
    · rw [run_eq_ok (hskip'.trans hrest), run_eq_ok hrest]
  | case2 => cases h
  | case3 r p cs start c tail hskip l after hread stop r₃ hstep =>
    rename_i ih
    have hstart := skipLayout_after p false cs
    have hskip' := skipLayout_append p false cs rest
    rw [hskip] at hstart hskip'
    have hstop : stop.after (after ++ ['\n']) = p.after (cs ++ ['\n']) := by
      have hafter : stop.after after = start.after (c :: tail) := by
        rw [← read?_chars hread, Position.after_append]
      rw [Position.after_append, Position.after_append, hafter, hstart]
    rw [run_eq_ok_of_read hskip' (read?_newline hread), ← hstop, ← ih h]
    constructor
    · rintro ⟨r₄, hstep', hrun⟩
      obtain rfl := Except.ok.inj (hstep.symm.trans hstep')
      exact hrun
    · exact fun hrun => ⟨r₃, hstep, hrun⟩
  | case4 => cases h

/-- Declarations that stand below others are read as they are alone. -/
theorem read_append {cs₁ cs₂ : List Char} {r₁ r₂ : Reader} (h₁ : read file cs₁ = .ok r₁)
    (h₂ : read file cs₂ = .ok r₂) (hfault : r₁.fault = none) :
    ∃ r, read file (cs₁ ++ '\n' :: cs₂) = .ok r ∧
      Lower (cs₁.count '\n' + 1) r₁.functions r₂ r := by
  obtain ⟨hrun₁, decls₁, hfinish₁⟩ := read_eq_ok.mp h₁
  obtain ⟨hrun₂, decls₂, hfinish₂⟩ := read_eq_ok.mp h₂
  obtain ⟨hm₁, -⟩ := finish_eq_ok.mp hfinish₁
  obtain ⟨hm₂, -⟩ := finish_eq_ok.mp hfinish₂
  have hbelow : Position.first.after (cs₁ ++ ['\n']) =
      Position.first.shift (cs₁.count '\n' + 1) := by
    rw [Position.after_newline]
    rfl
  have hstart : Lower (cs₁.count '\n' + 1) r₁.functions {} r₁ := ⟨by simp, hfault, hm₁⟩
  obtain ⟨r, hrun, hlower⟩ := hstart.run .first cs₂ r₂ hrun₂
  have hm : r.mode = .top {} := by rw [hlower.mode, hm₂]; rfl
  rw [← hbelow, ← run_append hrun₁] at hrun
  exact ⟨r, read_eq_ok.mpr ⟨hrun, _, finish_eq_ok.mpr ⟨hm, rfl⟩⟩, hlower⟩

end Reader

theorem Reading.declarations_append {file : Option String} {s₁ s₂ : String}
    {ds₁ ds₂ : List FunctionDecl} (h₁ : ofSource s₁ file = .ok (.declarations ds₁))
    (h₂ : ofSource s₂ file = .ok (.declarations ds₂)) :
    ofSource (s₁ ++ "\n" ++ s₂) file =
      .ok (.declarations (ds₁ ++
        ds₂.map (FunctionDecl.mapSpans (Span.shift (s₁.toList.count '\n' + 1))))) := by
  obtain ⟨r₁, hread₁, hfault₁, rfl⟩ := ofSource_eq_declarations.mp h₁
  obtain ⟨r₂, hread₂, hfault₂, rfl⟩ := ofSource_eq_declarations.mp h₂
  obtain ⟨r, hread, hlower⟩ := Reader.read_append hread₁ hread₂ hfault₁
  have hchars : (s₁ ++ "\n" ++ s₂).toList = s₁.toList ++ '\n' :: s₂.toList := by simp
  refine ofSource_eq_declarations.mpr ⟨r, hchars ▸ hread, ?_, hlower.functions⟩
  rw [hlower.fault, hfault₂]
  rfl

end ContractGuard
