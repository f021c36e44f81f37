import ContractGuard.Proofs.Syntax.Grammar

/-!
# Reading expressions

What has been read of an expression is the open parentheses, the sum and the product that
wait at each depth, and the focus. Every step keeps that these spell the lexemes read so
far, and conversely the steps follow any derivation: the operand in focus, closed with
what waits before it, is the tree of the derivation.
-/

namespace ContractGuard

open Grammar

variable {file : Option String} {ls ms ks : List Lexeme} {fs gs hs : List NumeralFault}
  {p p' : Pending} {o : Operand} {t : Token} {e : Expr}

def Focus.operand? (file : Option String) : Focus → Option Operand
  | .operand o => some o
  | .name cs extent => some ⟨.name (String.ofList cs) (extent.span file), extent⟩
  | _ => none

namespace Pending

theorem stepStart_eq_ok {g : Progress} (h : p.stepStart file t = .ok g) :
    (t.lexeme = .symbol .minus ∧ g = .more { p with focus := .sign t.start }) ∨
    (t.lexeme = .symbol .lparen ∧ g = .more (p.openWith (.group t.start))) ∨
    (∃ cs, t.lexeme = .word cs ∧ g = .more { p with focus := .name cs t.extent }) ∨
    ∃ c, t.lexeme.constant? = some c ∧ g = .more (p.constant file c t.extent) := by
  simp only [stepStart] at h
  split at h
  · next hl => exact .inl ⟨hl, by simpa using h.symm⟩
  · next hl => exact .inr (.inl ⟨hl, by simpa using h.symm⟩)
  · next cs hl => exact .inr (.inr (.inl ⟨cs, hl, by simpa using h.symm⟩))
  all_goals
    first
    | next hl => exact .inr (.inr (.inr ⟨_, by rw [hl]; rfl, by simpa using h.symm⟩))
    | simp [Token.unexpected] at h

theorem stepSign_eq_ok {g : Progress} {start : Position} (h : p.stepSign file start t = .ok g) :
    ∃ c, t.lexeme.negated? = some c ∧ g = .more (p.constant file c ⟨start, t.stop⟩) := by
  simp only [stepSign] at h
  split at h
  · next hl => exact ⟨_, by rw [hl]; rfl, by simpa using h.symm⟩
  · next hl => exact ⟨_, by rw [hl]; rfl, by simpa using h.symm⟩
  · simp [Token.unexpected] at h

theorem stepOperand_eq_ok {g : Progress} (h : p.stepOperand file o t = .ok g) :
    (∃ s op, t.lexeme = .symbol s ∧ (s.sumOp? = some op ∨ s.productOp? = some op) ∧
      g = .more (p.operator file op o)) ∨
    (∃ frame frames, t.lexeme = .symbol .rparen ∧ p.frames = frame :: frames ∧
      g = .more { p with
        level := frame.level
        frames := frames
        focus := .operand (frame.opening.close file (p.level.close file o) t.stop) }) ∨
    (t.lexeme = .symbol .semicolon ∧ p.frames = [] ∧
      g = .done (p.level.close file o) p.fault) := by
  simp only [stepOperand] at h
  split at h
  · next hl => exact .inl ⟨_, _, hl, .inl rfl, by simpa using h.symm⟩
  · next hl => exact .inl ⟨_, _, hl, .inl rfl, by simpa using h.symm⟩
  · next hl => exact .inl ⟨_, _, hl, .inr rfl, by simpa using h.symm⟩
  · next hl => exact .inl ⟨_, _, hl, .inr rfl, by simpa using h.symm⟩
  · next hl =>
    split at h
    · simp [Token.unexpected] at h
    · next frame frames hf => exact .inr (.inl ⟨frame, frames, hl, hf, by simpa using h.symm⟩)
  · next hl =>
    split at h
    · next hf => exact .inr (.inr ⟨hl, hf, by simpa using h.symm⟩)
    · simp [Token.unexpected] at h
  · simp [Token.unexpected] at h

theorem step_of_operand (ho : p.focus.operand? file = some o) (hl : t.lexeme ≠ .symbol .lparen) :
    p.step file t = p.stepOperand file o t := by
  cases hf : p.focus with
  | start => simp [hf, Focus.operand?] at ho
  | sign start => simp [hf, Focus.operand?] at ho
  | operand o' =>
    obtain rfl : o' = o := by simpa [hf, Focus.operand?] using ho
    simp only [step, hf]
  | name cs extent =>
    obtain rfl : _ = o := by simpa [hf, Focus.operand?] using ho
    simp only [step, hf]

theorem step_name {cs : List Char} {extent : Extent} (hf : p.focus = .name cs extent)
    (hl : t.lexeme = .symbol .lparen) :
    p.step file t = .ok (.more (p.openWith (.conversion extent.start cs))) := by
  simp only [step]
  rw [hf, hl]

end Pending

/-- What waits for its right operand. -/
inductive Waits (rank : Rank) (op? : Symbol → Option ArithOp) :
    Option Waiting → List Lexeme → List NumeralFault → Prop
  | none : Waits rank op? none [] []
  | some {w : Waiting} {s : Symbol} {ls : List Lexeme} {fs : List NumeralFault} :
      Expression rank ls w.left.expr.unspanned fs → op? s = some w.op →
      Waits rank op? (some w) (ls ++ [.symbol s]) fs

inductive Level.Reads (l : Level) (ls : List Lexeme) (fs : List NumeralFault) : Prop
  | mk {as bs : List Lexeme} {fa fb : List NumeralFault} :
      Waits .sum Symbol.sumOp? l.sum as fa → Waits .product Symbol.productOp? l.product bs fb →
      ls = as ++ bs → fs = fa ++ fb → Level.Reads l ls fs

inductive Opening.Reads : Opening → List Lexeme → Prop
  | group {start : Position} : Opening.Reads (.group start) [.symbol .lparen]
  | conversion {start : Position} {target : List Char} :
      Opening.Reads (.conversion start target) [.word target, .symbol .lparen]

inductive FramesRead : List Frame → List Lexeme → List NumeralFault → Prop
  | nil : FramesRead [] [] []
  | cons {frame : Frame} {frames : List Frame} {ls as bs cs : List Lexeme}
      {fs fa fb : List NumeralFault} :
      FramesRead frames as fa → frame.level.Reads bs fb → frame.opening.Reads cs →
      ls = as ++ bs ++ cs → fs = fa ++ fb → FramesRead (frame :: frames) ls fs

inductive Focus.Reads : Focus → List Lexeme → List NumeralFault → Prop
  | start : Focus.Reads .start [] []
  | sign {start : Position} : Focus.Reads (.sign start) [.symbol .minus] []
  | name {cs : List Char} {extent : Extent} : Focus.Reads (.name cs extent) [.word cs] []
  | operand {o : Operand} {ls : List Lexeme} {fs : List NumeralFault} :
      Expression .unary ls o.expr.unspanned fs → Focus.Reads (.operand o) ls fs

inductive Pending.Reads (p : Pending) (ls : List Lexeme) (fs : List NumeralFault) : Prop
  | mk {as bs cs : List Lexeme} {fa fb fc : List NumeralFault} :
      FramesRead p.frames as fa → p.level.Reads bs fb → p.focus.Reads cs fc →
      ls = as ++ bs ++ cs → fs = fa ++ fb ++ fc →
      p.fault.map NumeralError.fault = fs.head? → Pending.Reads p ls fs

theorem Level.reads_empty : Level.Reads {} [] [] := .mk .none .none rfl rfl

theorem Pending.reads_empty : Pending.Reads {} [] [] :=
  .mk .nil Level.reads_empty .start rfl rfl rfl

@[simp] theorem Waiting.unspanned_close (file : Option String) (w : Waiting) (o : Operand) :
    (w.close file o).expr.unspanned =
      .binary (.known w.op) w.left.expr.unspanned o.expr.unspanned {} := rfl

namespace Level

variable {l : Level}

theorem closeProduct_none (h : l.product = none) : l.closeProduct file o = o := by
  simp only [closeProduct, h]

theorem closeProduct_some {w : Waiting} (h : l.product = some w) :
    l.closeProduct file o = w.close file o := by
  simp only [closeProduct, h]

theorem close_none (h : l.sum = none) : l.close file o = l.closeProduct file o := by
  simp only [close, h]

theorem close_some {w : Waiting} (h : l.sum = some w) :
    l.close file o = w.close file (l.closeProduct file o) := by
  simp only [close, h]

theorem closeProduct_reads (file : Option String)
    (h : Waits .product Symbol.productOp? l.product ls fs)
    (ho : Expression .unary ms o.expr.unspanned gs) :
    Expression .product (ls ++ ms) (l.closeProduct file o).expr.unspanned (fs ++ gs) := by
  generalize hproduct : l.product = product at h
  cases h with
  | none =>
    rw [closeProduct_none hproduct]
    exact .ofUnary ho
  | some hleft hop =>
    rw [closeProduct_some hproduct]
    simpa using Expression.product hleft hop ho

theorem Reads.close (file : Option String) (h : l.Reads ls fs)
    (ho : Expression .unary ms o.expr.unspanned gs) :
    Expression .sum (ls ++ ms) (l.close file o).expr.unspanned (fs ++ gs) := by
  obtain ⟨hsum, hproduct, rfl, rfl⟩ := h
  have hp := closeProduct_reads file hproduct ho
  generalize hl : l.sum = sum at hsum
  cases hsum with
  | none =>
    rw [close_none hl]
    exact .ofProduct hp
  | some hleft hop =>
    rw [close_some hl]
    simpa using Expression.sum hleft hop hp

theorem push_sum {s : Symbol} {op : ArithOp} (hop : s.sumOp? = some op) :
    l.push file op o = ⟨some ⟨l.close file o, op⟩, none⟩ := by
  cases s <;> cases hop <;> rfl

theorem push_product {s : Symbol} {op : ArithOp} (hop : s.productOp? = some op) :
    l.push file op o = ⟨l.sum, some ⟨l.closeProduct file o, op⟩⟩ := by
  cases s <;> cases hop <;> rfl

theorem Reads.push (file : Option String) {s : Symbol} {op : ArithOp}
    (hop : s.sumOp? = some op ∨ s.productOp? = some op) (h : l.Reads ls fs)
    (ho : Expression .unary ms o.expr.unspanned gs) :
    (l.push file op o).Reads (ls ++ ms ++ [.symbol s]) (fs ++ gs) := by
  rcases hop with hop | hop
  · rw [push_sum hop]
    exact .mk (.some (h.close file ho) hop) .none (by simp) (by simp)
  · obtain ⟨hsum, hproduct, rfl, rfl⟩ := h
    rw [push_product hop]
    exact .mk hsum (.some (closeProduct_reads file hproduct ho) hop) (by simp) (by simp)

end Level

theorem Opening.Reads.close (file : Option String) {opening : Opening} (h : opening.Reads ks)
    (stop : Position)
    (ho : Expression .sum ls o.expr.unspanned fs) :
    Expression .atom (ks ++ ls ++ [.symbol .rparen])
      (opening.close file o stop).expr.unspanned fs := by
  cases h with
  | group => exact .group ho
  | conversion => exact .conversion ho

namespace Pending

@[simp] theorem openWith_fault (p : Pending) (opening : Opening) :
    (p.openWith opening).fault = p.fault := rfl

@[simp] theorem operator_fault (file : Option String) (p : Pending) (op : ArithOp) (o : Operand) :
    (p.operator file op o).fault = p.fault := rfl

theorem constant_fault (file : Option String) (p : Pending) (c : Except NumeralFault Constant)
    (extent : Extent) :
    (p.constant file c extent).fault.map NumeralError.fault =
      (p.fault.map NumeralError.fault <|> (constantFaults c).head?) := by
  cases c with
  | ok c => cases hp : p.fault <;> simp [constant, constantFaults, hp]
  | error fault => cases hp : p.fault <;> simp [constant, constantFaults, hp]

theorem constant_focus (file : Option String) (p : Pending) (c : Except NumeralFault Constant)
    (extent : Extent) :
    ∃ o, (p.constant file c extent).focus = .operand o ∧ o.expr.unspanned = constantTree c := by
  cases c with
  | ok c => exact ⟨_, rfl, rfl⟩
  | error fault => exact ⟨_, rfl, rfl⟩

theorem constant_frames (file : Option String) (p : Pending) (c : Except NumeralFault Constant)
    (extent : Extent) :
    (p.constant file c extent).frames = p.frames ∧
      (p.constant file c extent).level = p.level := by
  cases c <;> exact ⟨rfl, rfl⟩

theorem constant_reads {c : Except NumeralFault Constant} {extent : Extent}
    (hframes : FramesRead p.frames ls fs) (hlevel : p.level.Reads ms gs)
    (hfault : p.fault.map NumeralError.fault = (fs ++ gs).head?)
    (hc : Expression .unary ks (constantTree c) (constantFaults c)) :
    (p.constant file c extent).Reads (ls ++ ms ++ ks) (fs ++ gs ++ constantFaults c) := by
  obtain ⟨o, hfocus, ho⟩ := constant_focus file p c extent
  obtain ⟨hf, hl⟩ := constant_frames file p c extent
  refine .mk (hf ▸ hframes) (hl ▸ hlevel) (hfocus ▸ .operand (ho ▸ hc)) rfl rfl ?_
  rw [constant_fault, hfault]
  simp [Option.or_assoc]

theorem openWith_reads {opening : Opening} (hframes : FramesRead p.frames ls fs)
    (hlevel : p.level.Reads ms gs)
    (hfault : p.fault.map NumeralError.fault = (fs ++ gs).head?) (ho : opening.Reads ks) :
    (p.openWith opening).Reads (ls ++ ms ++ ks) (fs ++ gs) :=
  .mk (.cons hframes hlevel ho rfl rfl) Level.reads_empty .start (by simp) (by simp) hfault

def StepReads (t : Token) (ls : List Lexeme) (fs : List NumeralFault) : Progress → Prop
  | .more p => ∃ gs, p.Reads (ls ++ [t.lexeme]) gs
  | .done o fault =>
    t.lexeme = .symbol .semicolon ∧ Expression .sum ls o.expr.unspanned fs ∧
      fault.map NumeralError.fault = fs.head?

theorem stepOperand_reads {g : Progress} (hframes : FramesRead p.frames ls fs)
    (hlevel : p.level.Reads ms gs) (ho : Expression .unary ks o.expr.unspanned hs)
    (hfault : p.fault.map NumeralError.fault = (fs ++ gs ++ hs).head?)
    (h : p.stepOperand file o t = .ok g) :
    StepReads t (ls ++ ms ++ ks) (fs ++ gs ++ hs) g := by
  rcases stepOperand_eq_ok h with ⟨s, op, hl, hop, rfl⟩ | ⟨frame, frames, hl, hf, rfl⟩ |
    ⟨hl, hf, rfl⟩
  · have hpush := hlevel.push file hop ho
    exact ⟨_, .mk hframes hpush .start (by simp [hl]) (by simp) hfault⟩
  · rw [hf] at hframes
    obtain _ | ⟨hrest, hlevel', hopening, rfl, rfl⟩ := hframes
    have hclosed := hopening.close file t.stop (hlevel.close file ho)
    exact ⟨_, .mk hrest hlevel' (.operand (.ofAtom hclosed)) (by simp [hl]) (by simp) hfault⟩
  · rw [hf] at hframes
    cases hframes
    exact ⟨hl, by simpa using hlevel.close file ho, by simpa using hfault⟩

theorem step_reads {g : Progress} (hp : p.Reads ls fs) (h : p.step file t = .ok g) :
    StepReads t ls fs g := by
  obtain @⟨as, bs, cs, fa, fb, fc, hframes, hlevel, hfocus, rfl, rfl, hfault⟩ := hp
  generalize hf : p.focus = focus at hfocus
  cases hfocus with
  | start =>
    simp only [step, hf] at h
    simp only [List.append_nil] at hfault ⊢
    rcases stepStart_eq_ok h with ⟨hl, rfl⟩ | ⟨hl, rfl⟩ | ⟨cs, hl, rfl⟩ | ⟨c, hl, rfl⟩
    · exact ⟨_, .mk hframes hlevel .sign (by rw [hl]) rfl (by simpa using hfault)⟩
    · exact ⟨_, hl ▸ openWith_reads hframes hlevel hfault .group⟩
    · exact ⟨_, .mk hframes hlevel .name (by rw [hl]) rfl (by simpa using hfault)⟩
    · exact ⟨_, constant_reads hframes hlevel hfault (.ofAtom (.constant hl))⟩
  | sign =>
    simp only [step, hf] at h
    simp only [List.append_nil] at hfault
    obtain ⟨c, hl, rfl⟩ := stepSign_eq_ok h
    refine ⟨fa ++ fb ++ constantFaults c, ?_⟩
    simpa using constant_reads hframes hlevel hfault (.negative hl)
  | @name cs extent =>
    by_cases hparen : t.lexeme = .symbol .lparen
    · rw [step_name hf hparen] at h
      obtain rfl := Except.ok.inj h
      simp only [List.append_nil] at hfault ⊢
      refine ⟨fa ++ fb, ?_⟩
      simpa [hparen] using openWith_reads hframes hlevel hfault (.conversion)
    · rw [step_of_operand (by rw [hf]; rfl) hparen] at h
      exact stepOperand_reads hframes hlevel (.ofAtom (.name _)) hfault h
  | operand ho =>
    simp only [step, hf] at h
    exact stepOperand_reads hframes hlevel ho hfault h

end Pending

/-- Wherever the lexemes stand, stepping over them leads to a state with the property. -/
def Leads {σ : Type} (step : σ → Token → Except SyntaxFault σ) (s : σ) (ls : List Lexeme)
    (q : σ → Prop) : Prop :=
  ∀ ts : List Token, ts.map Token.lexeme = ls → ∃ s', ts.foldlM step s = .ok s' ∧ q s'

namespace Leads

variable {σ : Type} {step : σ → Token → Except SyntaxFault σ} {s : σ} {l : Lexeme}
  {q q' : σ → Prop}

theorem nil (h : q s) : Leads step s [] q := by
  intro ts hts
  obtain rfl := List.map_eq_nil_iff.mp hts
  exact ⟨s, rfl, h⟩

theorem cons (h : ∀ t : Token, t.lexeme = l → ∃ s', step s t = .ok s' ∧ Leads step s' ls q) :
    Leads step s (l :: ls) q := by
  intro ts hts
  obtain ⟨t, ts, rfl, hl, hrest⟩ := List.map_eq_cons_iff.mp hts
  obtain ⟨s₁, hstep, hleads⟩ := h t hl
  rw [List.foldlM_cons, hstep]
  exact hleads ts hrest

theorem append (h : Leads step s ls q) (hq : ∀ s', q s' → Leads step s' ms q') :
    Leads step s (ls ++ ms) q' := by
  intro ts hts
  obtain ⟨ts₁, ts₂, rfl, hts₁, hts₂⟩ := List.map_eq_append_iff.mp hts
  obtain ⟨s₁, hfold, hs₁⟩ := h ts₁ hts₁
  rw [List.foldlM_append, hfold]
  exact hq s₁ hs₁ ts₂ hts₂

theorem single (h : ∀ t : Token, t.lexeme = l → ∃ s', step s t = .ok s' ∧ q s') :
    Leads step s [l] q := by
  apply cons
  intro t ht
  obtain ⟨s', hstep, hs'⟩ := h t ht
  exact ⟨s', hstep, nil hs'⟩

theorem mono (h : Leads step s ls q) (hq : ∀ s', q s' → q' s') : Leads step s ls q' := by
  intro ts hts
  obtain ⟨s', hfold, hs'⟩ := h ts hts
  exact ⟨s', hfold, hq s' hs'⟩

end Leads

namespace Pending

/-- A step that does not end the expression. -/
def advance (file : Option String) (p : Pending) (t : Token) : Except SyntaxFault Pending :=
  match p.step file t with
  | .ok (.more p) => .ok p
  | .ok (.done _ _) => t.unexpected
  | .error fault => .error fault

theorem advance_eq_ok : p.advance file t = .ok p' ↔ p.step file t = .ok (.more p') := by
  simp only [advance]
  split <;> simp_all [Token.unexpected]

abbrev Feeds (file : Option String) (p : Pending) (ls : List Lexeme) (q : Pending → Prop) : Prop :=
  Leads (Pending.advance file) p ls q

variable {q q' : Pending → Prop} {l : Lexeme}

theorem Feeds.cons
    (h : ∀ t : Token, t.lexeme = l →
      ∃ p', p.step file t = .ok (.more p') ∧ Feeds file p' ls q) :
    Feeds file p (l :: ls) q := by
  apply Leads.cons
  intro t hl
  obtain ⟨p', hstep, hp'⟩ := h t hl
  exact ⟨p', advance_eq_ok.mpr hstep, hp'⟩

theorem Feeds.single
    (h : ∀ t : Token, t.lexeme = l → ∃ p', p.step file t = .ok (.more p') ∧ q p') :
    Feeds file p [l] q := by
  apply Leads.single
  intro t hl
  obtain ⟨p', hstep, hp'⟩ := h t hl
  exact ⟨p', advance_eq_ok.mpr hstep, hp'⟩

/-- What may wait where an operand of the rank begins. -/
def Ready (p : Pending) : Rank → Prop
  | .sum => p.focus = .start ∧ p.level = {}
  | .product => p.focus = .start ∧ p.level.product = none
  | .unary | .atom => p.focus = .start

def Closes (file : Option String) (p p' : Pending) (e : Expr) : Rank → Prop
  | .sum => ∃ o, p'.focus.operand? file = some o ∧ (p'.level.close file o).expr.unspanned = e
  | .product => ∃ o, p'.focus.operand? file = some o ∧ p'.level.sum = p.level.sum ∧
      (p'.level.closeProduct file o).expr.unspanned = e
  | .unary | .atom =>
    ∃ o, p'.focus.operand? file = some o ∧ p'.level = p.level ∧ o.expr.unspanned = e

structure Spells (file : Option String) (p : Pending) (rank : Rank) (e : Expr)
    (fs : List NumeralFault) (p' : Pending) : Prop where
  frames : p'.frames = p.frames
  closes : Closes file p p' e rank
  fault : p'.fault.map NumeralError.fault = (p.fault.map NumeralError.fault <|> fs.head?)

theorem stepOperand_operator {s : Symbol} {op : ArithOp} (hl : t.lexeme = .symbol s)
    (hop : s.sumOp? = some op ∨ s.productOp? = some op) :
    p.stepOperand file o t = .ok (.more (p.operator file op o)) := by
  simp only [stepOperand]
  rw [hl]
  rcases hop with hop | hop <;> cases s <;> cases hop <;> rfl

theorem ne_lparen_of_operator {s : Symbol} {op : ArithOp}
    (hop : s.sumOp? = some op ∨ s.productOp? = some op) : s ≠ .lparen := by
  rintro rfl
  rcases hop with hop | hop <;> cases hop

theorem step_operator {s : Symbol} {op : ArithOp} (ho : p.focus.operand? file = some o)
    (hl : t.lexeme = .symbol s) (hop : s.sumOp? = some op ∨ s.productOp? = some op) :
    p.step file t = .ok (.more (p.operator file op o)) := by
  rw [step_of_operand ho (by simpa [hl] using ne_lparen_of_operator hop),
    stepOperand_operator hl hop]

theorem step_rparen {frame : Frame} {frames : List Frame} (ho : p.focus.operand? file = some o)
    (hl : t.lexeme = .symbol .rparen) (hf : p.frames = frame :: frames) :
    p.step file t = .ok (.more { p with
      level := frame.level
      frames := frames
      focus := .operand (frame.opening.close file (p.level.close file o) t.stop) }) := by
  rw [step_of_operand ho (by simp [hl])]
  simp only [stepOperand, hl, hf]

theorem step_semicolon (ho : p.focus.operand? file = some o) (hl : t.lexeme = .symbol .semicolon)
    (hf : p.frames = []) : p.step file t = .ok (.done (p.level.close file o) p.fault) := by
  rw [step_of_operand ho (by simp [hl])]
  simp only [stepOperand, hl, hf]

theorem step_start {g : Progress} (hf : p.focus = .start) (h : p.stepStart file t = .ok g) :
    p.step file t = .ok g := by
  simp only [step]
  rw [hf]
  exact h

theorem step_constant {c : Except NumeralFault Constant} (hf : p.focus = .start)
    (hl : t.lexeme.constant? = some c) :
    p.step file t = .ok (.more (p.constant file c t.extent)) := by
  simp only [step, hf, stepStart]
  cases hlex : t.lexeme <;> rw [hlex] at hl <;> cases hl <;> rfl

theorem step_negated {c : Except NumeralFault Constant} {start : Position}
    (hf : p.focus = .sign start) (hl : t.lexeme.negated? = some c) :
    p.step file t = .ok (.more (p.constant file c ⟨start, t.stop⟩)) := by
  simp only [step, hf, stepSign]
  cases hlex : t.lexeme <;> rw [hlex] at hl <;> cases hl <;> rfl

theorem spells_constant (file : Option String) (p : Pending) (c : Except NumeralFault Constant)
    (extent : Extent) :
    Spells file p .atom (constantTree c) (constantFaults c) (p.constant file c extent) := by
  obtain ⟨o, hfocus, ho⟩ := constant_focus file p c extent
  obtain ⟨hf, hl⟩ := constant_frames file p c extent
  exact ⟨hf, ⟨o, by rw [hfocus]; rfl, hl, ho⟩, constant_fault file p c extent⟩

theorem Feeds.enclosed {opening : Opening} {e' : Expr}
    (h : Feeds file (p.openWith opening) ls (Spells file (p.openWith opening) .sum e fs))
    (he : ∀ (inner : Operand) (stop : Position), inner.expr.unspanned = e →
      (opening.close file inner stop).expr.unspanned = e') :
    Feeds file (p.openWith opening) (ls ++ [.symbol .rparen]) (Spells file p .atom e' fs) := by
  apply h.append
  rintro p₁ ⟨hframes, ⟨o, ho, hclose⟩, hfault⟩
  apply Feeds.single
  intro t hl
  exact ⟨_, step_rparen ho hl hframes, rfl, ⟨_, rfl, rfl, he _ _ hclose⟩, hfault⟩

theorem Feeds.operator {s : Symbol} {op : ArithOp} {rank : Rank} (rank' : Rank)
    (right : Expr) {e' : Expr} (h : Feeds file p ls (Spells file p rank e fs))
    (hop : s.sumOp? = some op ∨ s.productOp? = some op)
    (hq : ∀ p₁, Closes file p p₁ e rank → ∃ o, p₁.focus.operand? file = some o ∧
      Feeds file (p₁.operator file op o) ms (Spells file (p₁.operator file op o) rank' right gs) ∧
      ∀ p₂, Closes file (p₁.operator file op o) p₂ right rank' → Closes file p p₂ e' rank) :
    Feeds file p (ls ++ .symbol s :: ms) (Spells file p rank e' (fs ++ gs)) := by
  apply h.append
  intro p₁ h₁
  obtain ⟨o, ho, hright, hcloses⟩ := hq p₁ h₁.closes
  apply Feeds.cons
  intro t hl
  refine ⟨_, step_operator ho hl hop, hright.mono ?_⟩
  intro p₂ h₂
  refine ⟨h₂.frames.trans h₁.frames, hcloses p₂ h₂.closes, ?_⟩
  rw [h₂.fault, operator_fault, h₁.fault]
  simp [Option.or_assoc]

end Pending

namespace Grammar

open Pending

theorem Expression.feeds {rank : Rank} (h : Expression rank ls e fs) (hp : p.Ready rank) :
    Feeds file p ls (Spells file p rank e fs) := by
  induction h generalizing p with
  | ofAtom _ ih => exact (ih hp).mono fun p' h => ⟨h.frames, h.closes, h.fault⟩
  | ofUnary _ ih =>
    apply (ih hp.1).mono
    intro p' h
    obtain ⟨o, ho, hlevel, he⟩ := h.closes
    have hnone : p'.level.product = none := by rw [hlevel, hp.2]
    exact ⟨h.frames, ⟨o, ho, by rw [hlevel], by rw [Level.closeProduct_none hnone, he]⟩, h.fault⟩
  | ofProduct _ ih =>
    apply (ih ⟨hp.1, by rw [hp.2]⟩).mono
    intro p' h
    obtain ⟨o, ho, hsum, he⟩ := h.closes
    have hnone : p'.level.sum = none := by rw [hsum, hp.2]
    exact ⟨h.frames, ⟨o, ho, by rw [Level.close_none hnone, he]⟩, h.fault⟩
  | constant hc =>
    apply Feeds.single
    intro t ht
    exact ⟨_, step_constant hp (ht ▸ hc), spells_constant _ _ _ _⟩
  | negative hc =>
    apply Feeds.cons
    intro t ht
    refine ⟨{ p with focus := .sign t.start }, step_start hp (by rw [stepStart, ht]), ?_⟩
    apply Feeds.single
    intro t' ht'
    obtain ⟨hframes, hcloses, hfault⟩ := spells_constant file { p with focus := .sign t.start } _ _
    exact ⟨_, step_negated rfl (ht' ▸ hc), hframes, hcloses, hfault⟩
  | name cs =>
    apply Feeds.single
    intro t ht
    refine ⟨{ p with focus := .name cs t.extent }, step_start hp (by rw [stepStart, ht]), rfl,
      ⟨_, rfl, rfl, rfl⟩, by simp⟩
  | group _ ih =>
    rw [List.cons_append]
    apply Feeds.cons
    intro t ht
    refine ⟨_, step_start hp (by rw [stepStart, ht]), ?_⟩
    exact (ih ⟨rfl, rfl⟩).enclosed fun inner stop he => he
  | @conversion target _ _ _ _ ih =>
    rw [List.cons_append, List.cons_append]
    apply Feeds.cons
    intro t ht
    refine ⟨_, step_start hp (by rw [stepStart, ht]), ?_⟩
    apply Feeds.cons
    intro t' ht'
    have hopen : Pending.step file { p with focus := .name target t.extent } t' =
        .ok (.more (p.openWith (.conversion t.start target))) := by
      rw [step_name rfl ht']
      rfl
    refine ⟨_, hopen, ?_⟩
    apply (ih ⟨rfl, rfl⟩).enclosed
    intro inner stop he
    exact congrArg (Expr.conversion _ · {}) he
  | @product _ _ _ _ _ right _ _ _ hop _ ihl ihr =>
    apply (ihl hp).operator .unary right (.inr hop)
    rintro p₁ ⟨o, ho, hsum, hleft⟩
    refine ⟨o, ho, ihr rfl, ?_⟩
    rintro p₂ ⟨o₂, ho₂, hlevel, hright⟩
    have hpush : (p₁.operator file _ o).level = _ := Level.push_product hop
    rw [hpush] at hlevel
    refine ⟨o₂, ho₂, by rw [hlevel]; exact hsum, ?_⟩
    rw [Level.closeProduct_some (by rw [hlevel]), Waiting.unspanned_close, hright, hleft]
  | @sum _ _ _ _ _ right _ _ _ hop _ ihl ihr =>
    apply (ihl hp).operator .product right (.inl hop)
    rintro p₁ ⟨o, ho, hleft⟩
    have hpush : (p₁.operator file _ o).level = _ := Level.push_sum hop
    refine ⟨o, ho, ihr ⟨rfl, by rw [hpush]⟩, ?_⟩
    rintro p₂ ⟨o₂, ho₂, hsum, hright⟩
    rw [hpush] at hsum
    exact ⟨o₂, ho₂, by rw [Level.close_some hsum, Waiting.unspanned_close, hright, hleft]⟩

end Grammar

end ContractGuard
