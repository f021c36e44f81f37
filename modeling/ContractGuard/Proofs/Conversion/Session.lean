import ContractGuard.Proofs.Arithmetic.Exact
import ContractGuard.Proofs.Lowering.Atomic

/-!
# Constants along a session

A registry may hold any procedures, and nothing that one of them returns is trusted. What a
conversion hands back has the table's own type for the name and stands for the clamp that was
emitted last; as a literal it is legal, and so was its source. Along any calls that feed each
other's results, a literal that code holds is therefore legal for its type.
-/

namespace ContractGuard

open ScalarType

variable {v w : TypedValue} {target : String} {span : Span} {b b' : Buffer}

/-- What a conversion hands back, with the buffer that it leaves. -/
structure HandsBack (v : TypedValue) (target : String) (w : TypedValue) (b' : Buffer) : Prop where
  ty : find? target = some w.ty
  isLiteral : w.isLiteral = v.isLiteral
  clamped : ∃ dest src range, w.operand = some dest ∧ w.ty.bounds = .ok range ∧
    b'.nodes.getLast? = some (.clampTo dest src w.ty range)
  legal : w.isLiteral = true → w.ty.literalInRange w.value = .ok true
  source : w.isLiteral = true → v.ty.literalInRange v.value = .ok true

theorem ConversionEntry.result_legal {entry : ConversionEntry} {converted : Converted}
    (hp : entry.Planned v span converted) (dest : ValueId) :
    (entry.result v converted dest).Legal := by
  intro hl
  simp only [result] at hl ⊢
  split_ifs at hl ⊢ with hlit
  · exact hp.result hlit
  · cases hl

theorem Registry.convert_handsBack {qs : List Request}
    (h : ((empty.run qs).convert v target span).Yields b w b') : HandsBack v target w b' := by
  obtain ⟨entry, converted, hentry, hplanned, he⟩ := convert_yields.mp h
  have hliteral := he.isLiteral
  obtain ⟨dest, src, range, rfl, hrange, hlast⟩ := he.clamped
  have hty : (entry.result v converted dest).ty = entry.target := ConversionEntry.result_ty
  refine ⟨?_, hliteral, ⟨dest, src, range, ConversionEntry.result_operand, ?_, ?_⟩, ?_, ?_⟩
  · rw [hty]
    exact ((holds_run qs).resolve_eq_ok hentry).1
  · rw [hty]
    exact hrange
  · rw [hty]
    exact hlast
  · exact ConversionEntry.result_legal hplanned dest
  · exact fun hl => hplanned.legal (hliteral ▸ hl)

/-- The operands are numbered among the values so far. A conversion brings its own registry. -/
inductive Call where
  | convert (requests : List Request) (source : ℕ) (target : String) (span : Span)
  | guard (op : OperatorName) (left right : ℕ) (span : Span)

structure Session where
  values : List TypedValue
  code : Buffer

namespace Session

variable {s : Session} {out : Except Fault TypedValue × Buffer}

def extend (s : Session) : Except Fault TypedValue × Buffer → Session
  | (.ok w, code) => ⟨s.values ++ [w], code⟩
  | (.error _, code) => ⟨s.values, code⟩

def call (s : Session) : Call → Session
  | .convert requests source target span =>
    match s.values[source]? with
    | some v => s.extend (((Registry.empty.run requests).convert v target span).run s.code)
    | none => s
  | .guard op left right span =>
    match s.values[left]?, s.values[right]? with
    | some v, some w => s.extend ((ContractGuard.guard op v w span).run s.code)
    | _, _ => s

def run (s : Session) (calls : List Call) : Session := calls.foldl call s

/-- All types are the table's own, and a literal that is not legal is still bare. -/
def Sound (s : Session) : Prop :=
  ∀ v ∈ s.values, v.ty ∈ table ∧ (v.operand = none ∨ v.Legal)

theorem Sound.extend (h : s.Sound) (hout : ∀ w, out.1 = .ok w → w.ty ∈ table ∧ w.Legal) :
    (s.extend out).Sound := by
  obtain ⟨e | w, code⟩ := out
  · exact h
  · intro v hv
    rcases List.mem_append.mp hv with hv | hv
    · exact h v hv
    · obtain rfl := List.mem_singleton.mp hv
      obtain ⟨hty, hlegal⟩ := hout v rfl
      exact ⟨hty, .inr hlegal⟩

theorem Sound.call (h : s.Sound) (c : Call) : (s.call c).Sound := by
  cases c with
  | convert requests source target span =>
    simp only [Session.call]
    cases hv : s.values[source]? with
    | none => exact h
    | some v =>
      refine h.extend fun w hw => ?_
      have hback := Registry.convert_handsBack (Emit.yields_of_fst hw)
      exact ⟨(find?_eq_some hback.ty).1, hback.legal⟩
  | guard op left right span =>
    simp only [Session.call]
    cases hv : s.values[left]? with
    | none => exact h
    | some v =>
      cases hw : s.values[right]? with
      | none => exact h
      | some w =>
        refine h.extend fun u hu => ?_
        have hty := (h v (List.mem_of_getElem? hv)).1
        obtain ⟨hu, hlegal⟩ := guard_legal (Emit.yields_of_fst hu) hty
        exact ⟨hu ▸ hty, hlegal⟩

theorem Sound.run (h : s.Sound) (calls : List Call) : (s.run calls).Sound := by
  induction calls generalizing s with
  | nil => exact h
  | cons c calls ih => exact ih (h.call c)

end Session

/-- Whatever the procedures return, and whatever was called before. -/
theorem constants_legal :
    (∀ qs v target span b w b', ((Registry.empty.run qs).convert v target span).Yields b w b' →
      HandsBack v target w b') ∧
    ∀ s : Session, s.Sound → ∀ calls, ∀ v ∈ (s.run calls).values,
      v.isLiteral = true → v.operand ≠ none → v.ty.literalInRange v.value = .ok true := by
  constructor
  · exact fun qs v target span b w b' h => Registry.convert_handsBack h
  · intro s hs calls v hv hliteral hoperand
    obtain ⟨-, hbare | hlegal⟩ := hs.run calls v hv
    · exact absurd hbare hoperand
    · exact hlegal hliteral

theorem constants_legal_unfit :
    let unfit : Procedure := ⟨"unfit", fun _ _ _ => .ok ⟨.identity, .int 300⟩⟩
    let requests : List Request :=
      ((Registry.choosing fun _ => unfit).map fun (name, p) => .register name p) ++ [.close]
    let five : TypedValue := .literal (uint 8) (.int 5)
    let s : Session := ⟨[five], { name := "f" }⟩
    let calls : List Call :=
      [.convert requests 0 "uint8" {}, .convert requests 0 "uint16" {},
        .guard (.known .add) 1 1 {}]
    let out := ((Registry.empty.run requests).convert five "uint16" {}).run s.code
    out.1 = .ok ⟨uint 16, .int 300, true, some "%2"⟩ ∧
      HandsBack five "uint16" ⟨uint 16, .int 300, true, some "%2"⟩ out.2 ∧
      s.Sound ∧ ⟨uint 16, .int 600, true, some "%4"⟩ ∈ (s.run calls).values ∧
      (uint 16).literalInRange (.int 600) = .ok true := by
  intro unfit requests five s calls out
  have hout : out.1 = .ok ⟨uint 16, .int 300, true, some "%2"⟩ := by decide +kernel
  have hs : s.Sound := by
    intro v hv
    obtain rfl := List.mem_singleton.mp hv
    exact ⟨by decide, .inl rfl⟩
  have hmem : ⟨uint 16, .int 600, true, some "%4"⟩ ∈ (s.run calls).values := by decide +kernel
  have hback := constants_legal.1 requests five "uint16" {} s.code _ _ (Emit.yields_of_fst hout)
  exact ⟨hout, hback, hs, hmem, constants_legal.2 s hs calls _ hmem rfl (by simp)⟩

end ContractGuard
