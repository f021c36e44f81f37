import ContractGuard.Decimal.Text
import ContractGuard.Proofs.Syntax.Layout
import ContractGuard.Proofs.Syntax.Numeral

/-!
# Reading the text of a decimal

A finite decimal is written with all the digits of its coefficient, a point among them and an
exponent that makes up for the digits after the point. Reading the text gives the decimal back,
zeros and sign included, so different decimals have different texts.
-/

namespace ContractGuard

variable {c : Char} {cs ds tail whole fraction : List Char} {x : Scaled} {e : ℤ}

namespace Decimal

/-- The signs come first of what a decimal's text holds; blanks come before them. -/
def IsTextChar (c : Char) : Prop := 43 ≤ c.toNat ∧ c ≠ '_'

instance : Decidable (IsTextChar c) := inferInstanceAs (Decidable (_ ∧ _))

theorem isTextChar_of_all (h : cs.all (fun c => decide (IsTextChar c)) = true) :
    ∀ c ∈ cs, IsTextChar c :=
  fun c hc => of_decide_eq_true (List.all_eq_true.mp h c hc)

theorem isTextChar_of_isDigit (h : c.isDigit = true) : IsTextChar c := by
  have hne : c ≠ '_' := by
    rintro rfl
    cases h
  simp only [Char.isDigit, Bool.and_eq_true, decide_eq_true_eq] at h
  have hlow : 48 ≤ c.toNat := h.1
  exact ⟨by omega, hne⟩

theorem IsTextChar.not_isSpace (h : IsTextChar c) : isSpace c = false := by
  have hle : 43 ≤ c.toNat := h.1
  rw [Bool.eq_false_iff]
  intro hspace
  simp only [isSpace, Bool.or_eq_true, Bool.and_eq_true, decide_eq_true_eq] at hspace
  rcases hspace with (rfl | ⟨-, hr⟩) | ⟨-, hr⟩
  · revert hle
    decide
  · have hr : c.toNat ≤ 13 := hr
    omega
  · have hr : c.toNat ≤ 31 := hr
    omega

theorem isDigits_toDigits (n : ℕ) : isDigits (Nat.toDigits 10 n) = true :=
  (Numeral.toDigits_wellFormed n).2

theorem toLower_of_isDigit (h : c.isDigit = true) : c.toLower = c := by
  simp only [Char.isDigit, Bool.and_eq_true, decide_eq_true_eq] at h
  have hupper : ¬ (c.val ≥ 'A'.val ∧ c.val ≤ 'Z'.val) := by
    intro hc
    have hlow : 65 ≤ c.val.toNat := hc.1
    have hhigh : c.val.toNat ≤ 57 := h.2
    omega
  exact dif_neg hupper

theorem map_toLower_digits (h : isDigits ds = true) : ds.map Char.toLower = ds :=
  (List.map_congr_left fun _ hc => toLower_of_isDigit (List.all_eq_true.mp h _ hc)).trans
    (List.map_id ds)

inductive ExponentPart : List Char → ℤ → Prop
  | none : ExponentPart [] 0
  | some (e : ℤ) : ExponentPart ('E' :: Scaled.exponentText e) e

theorem map_toLower_exponentText (e : ℤ) :
    (Scaled.exponentText e).map Char.toLower = Scaled.exponentText e := by
  simp only [Scaled.exponentText, List.map_cons, map_toLower_digits (isDigits_toDigits _)]
  split <;> rfl

theorem ExponentPart.read (h : ExponentPart tail e) :
    readExponent? (tail.map Char.toLower) = .some e := by
  cases h with
  | none => rfl
  | some e =>
    have hvalue : Nat.ofDigitChars 10 (Nat.toDigits 10 e.natAbs) 0 = e.natAbs :=
      Nat.ofDigitChars_toDigits (by decide) (by decide)
    rw [List.map_cons, map_toLower_exponentText]
    change readExponent? ('e' :: Scaled.exponentText e) = _
    by_cases he : e < 0
    · have hneg : -(e.natAbs : ℤ) = e := by omega
      simp [Scaled.exponentText, he, readExponent?, splitSign, isDigits_toDigits, hvalue, hneg,
        -Nat.cast_natAbs]
    · have hpos : (e.natAbs : ℤ) = e := by omega
      simp [Scaled.exponentText, he, readExponent?, splitSign, isDigits_toDigits, hvalue, hpos,
        -Nat.cast_natAbs]

theorem ExponentPart.head (h : ExponentPart tail e) :
    ∀ c ∈ (tail.map Char.toLower).head?, c = 'e' := by
  cases h with
  | none => simp
  | some e => simp

def pointed (fraction : List Char) : List Char := if fraction = [] then [] else '.' :: fraction

/-- A mantissa with an exponent, which together make the number up to its sign. -/
inductive Spells (x : Scaled) : List Char → Prop
  | mk {whole fraction tail : List Char} {e : ℤ} :
      isDigits whole = true → whole ≠ [] → isDigits fraction = true → ExponentPart tail e →
      Nat.ofDigitChars 10 (whole ++ fraction) 0 = x.coefficient →
      e - fraction.length = x.exponent → Spells x (whole ++ (pointed fraction ++ tail))

theorem Spells.begins (h : Spells x cs) : ∃ d rest, cs = d :: rest ∧ d.isDigit = true := by
  obtain @⟨whole, -, -, -, hwhole, hne, -, -, -, -⟩ := h
  obtain _ | ⟨d, whole⟩ := whole
  · exact absurd rfl hne
  · exact ⟨d, _, rfl, List.all_eq_true.mp hwhole d List.mem_cons_self⟩

theorem readFinite?_spelled (negative : Bool) (hwhole : isDigits whole = true) (hne : whole ≠ [])
    (hfraction : isDigits fraction = true) (htail : ∀ c ∈ tail.head?, c = 'e')
    (he : readExponent? tail = some e) :
    readFinite? negative (whole ++ (pointed fraction ++ tail)) =
      some (.finite ⟨negative, Nat.ofDigitChars 10 (whole ++ fraction) 0,
        e - fraction.length⟩) := by
  have hstop : tail.head?.any Char.isDigit = false := by
    cases tail with
    | nil => rfl
    | cons c tail =>
      obtain rfl : c = 'e' := htail c rfl
      rfl
  have hempty : whole.isEmpty = false := by simp [hne]
  by_cases hf : fraction = []
  · subst hf
    have htake : (whole ++ tail).takeWhile Char.isDigit = whole :=
      Lexeme.takeWhile_before hwhole hstop
    have hdrop : (whole ++ tail).dropWhile Char.isDigit = tail :=
      Lexeme.dropWhile_before hwhole hstop
    simp only [pointed, if_true, List.nil_append, readFinite?, htake, hdrop]
    cases tail with
    | nil => simp [hempty, he]
    | cons c tail =>
      obtain rfl : c = 'e' := htail c rfl
      simp [hempty, he]
  · have htake : (whole ++ '.' :: (fraction ++ tail)).takeWhile Char.isDigit = whole :=
      Lexeme.takeWhile_before hwhole rfl
    have hdrop : (whole ++ '.' :: (fraction ++ tail)).dropWhile Char.isDigit =
        '.' :: (fraction ++ tail) := Lexeme.dropWhile_before hwhole rfl
    have htake' : (fraction ++ tail).takeWhile Char.isDigit = fraction :=
      Lexeme.takeWhile_before hfraction hstop
    have hdrop' : (fraction ++ tail).dropWhile Char.isDigit = tail :=
      Lexeme.dropWhile_before hfraction hstop
    simp only [pointed, if_neg hf, List.cons_append, readFinite?, htake, hdrop, htake', hdrop']
    simp [hempty, he]

theorem Spells.read (h : Spells x cs) (negative : Bool) :
    readFinite? negative (cs.map Char.toLower) =
      some (.finite { x with negative := negative }) := by
  obtain @⟨whole, fraction, tail, e, hwhole, hne, hfraction, htail, hcoefficient, hexponent⟩ := h
  have hpoint : (pointed fraction).map Char.toLower = pointed fraction := by
    simp only [pointed]
    split
    · rfl
    · rw [List.map_cons, map_toLower_digits hfraction]
      rfl
  rw [List.map_append, List.map_append, map_toLower_digits hwhole, hpoint,
    readFinite?_spelled negative hwhole hne hfraction htail.head htail.read, hcoefficient,
    hexponent]

theorem Spells.all_isTextChar (h : Spells x cs) : ∀ c ∈ cs, IsTextChar c := by
  obtain @⟨whole, fraction, tail, e, hwhole, -, hfraction, htail, -, -⟩ := h
  have hdigits : ∀ {ds : List Char}, isDigits ds = true → ∀ c ∈ ds, IsTextChar c :=
    fun hds c hc => isTextChar_of_isDigit (List.all_eq_true.mp hds c hc)
  have hpoint : ∀ c ∈ pointed fraction, IsTextChar c := by
    intro c hc
    simp only [pointed] at hc
    split at hc
    · cases hc
    · rcases List.mem_cons.mp hc with rfl | hc
      · decide
      · exact hdigits hfraction c hc
  have hexponent : ∀ c ∈ tail, IsTextChar c := by
    intro c hc
    cases htail with
    | none => cases hc
    | some e =>
      rcases List.mem_cons.mp hc with rfl | hc
      · decide
      · rcases List.mem_cons.mp hc with rfl | hc
        · split <;> decide
        · exact hdigits (isDigits_toDigits _) c hc
  intro c hc
  rcases List.mem_append.mp hc with hc | hc
  · exact hdigits hwhole c hc
  · rcases List.mem_append.mp hc with hc | hc
    · exact hpoint c hc
    · exact hexponent c hc

theorem isDigits_append : isDigits (ds ++ cs) = true ↔ isDigits ds = true ∧ isDigits cs = true := by
  simp [isDigits, List.all_append]

section

variable (hdigits : isDigits ds = true) (hne : ds ≠ [])
  (hvalue : Nat.ofDigitChars 10 ds 0 = x.coefficient)
include hdigits hne hvalue

theorem spells_positional (h : x.exponent ≤ 0) :
    Spells x (Scaled.positional ds (ds.length + x.exponent)) := by
  simp only [Scaled.positional]
  split
  · next hpoint =>
    set zeros := List.replicate (-(ds.length + x.exponent)).toNat '0' with hzeros
    have hleading : Nat.ofDigitChars 10 (['0'] ++ (zeros ++ ds)) 0 = x.coefficient := by
      rw [← List.append_assoc, Nat.ofDigitChars_append, hzeros, List.singleton_append,
        ← List.replicate_succ, Nat.ofDigitChars_replicate_zero, Nat.mul_zero, hvalue]
    have hfraction : isDigits (zeros ++ ds) = true :=
      isDigits_append.mpr ⟨by simp [hzeros, isDigits], hdigits⟩
    have hplaces : (0 : ℤ) - (zeros ++ ds).length = x.exponent := by
      rw [List.length_append, hzeros, List.length_replicate]
      omega
    have hspells : Spells x (['0'] ++ (pointed (zeros ++ ds) ++ [])) :=
      .mk rfl (by simp) hfraction .none hleading hplaces
    simpa [pointed, hne] using hspells
  · next hpoint =>
    split
    · next hlt =>
      set k := (ds.length + x.exponent).toNat with hk
      have hsplit : ds.take k ++ ds.drop k = ds := List.take_append_drop k ds
      obtain ⟨hwhole, hfraction⟩ := isDigits_append.mp (hsplit.symm ▸ hdigits)
      have htake : ds.take k ≠ [] := by
        simp [hne]
        omega
      have hdrop : ds.drop k ≠ [] := by simpa using hlt
      have hplaces : (0 : ℤ) - (ds.drop k).length = x.exponent := by
        rw [List.length_drop]
        omega
      have hspells : Spells x (ds.take k ++ (pointed (ds.drop k) ++ [])) :=
        .mk hwhole htake hfraction .none (by rw [hsplit, hvalue]) hplaces
      simpa only [pointed, if_neg hdrop, List.append_nil] using hspells
    · next hlt =>
      have hspells : Spells x (ds ++ (pointed [] ++ [])) :=
        .mk hdigits hne rfl .none (by rw [List.append_nil, hvalue]) (by simp; omega)
      simpa [pointed] using hspells

theorem spells_scientific : Spells x (Scaled.scientific ds (ds.length + x.exponent)) := by
  obtain _ | ⟨lead, rest⟩ := ds
  · exact absurd rfl hne
  · obtain ⟨hlead, hrest⟩ : isDigits [lead] = true ∧ isDigits rest = true :=
      isDigits_append.mp hdigits
    have hplaces : ((lead :: rest).length + x.exponent - 1) - rest.length = x.exponent := by
      rw [List.length_cons]
      omega
    have hspells : Spells x ([lead] ++ (pointed rest ++
        'E' :: Scaled.exponentText ((lead :: rest).length + x.exponent - 1))) :=
      .mk hlead (by simp) hrest (.some _) hvalue hplaces
    cases rest with
    | nil => exact hspells
    | cons next rest => exact hspells

end

theorem chars_finite (x : Scaled) :
    ∃ body, Spells x body ∧ x.chars = if x.negative then '-' :: body else body := by
  have hdigits : isDigits (Nat.toDigits 10 x.coefficient) = true := isDigits_toDigits _
  have hvalue : Nat.ofDigitChars 10 (Nat.toDigits 10 x.coefficient) 0 = x.coefficient :=
    Nat.ofDigitChars_toDigits (by decide) (by decide)
  refine ⟨_, ?_, rfl⟩
  split
  · next h => exact spells_positional hdigits Nat.toDigits_ne_nil hvalue h.1
  · exact spells_scientific hdigits Nat.toDigits_ne_nil hvalue

theorem splitSign_of_isDigit (h : c.isDigit = true) : splitSign (c :: cs) = (false, c :: cs) := by
  simp only [splitSign]
  split
  · next heq =>
    obtain rfl := (List.cons.inj heq).1
    cases h
  · next heq =>
    obtain rfl := (List.cons.inj heq).1
    cases h
  · rfl

theorem ofChars?_of_isDigit {negative : Bool} (hsign : splitSign cs = (negative, c :: tail))
    (h : c.isDigit = true) : ofChars? cs = readFinite? negative (c :: tail) := by
  simp only [ofChars?, hsign]
  split
  · next heq =>
    obtain rfl := (List.cons.inj heq).1
    cases h
  · next heq =>
    obtain rfl := (List.cons.inj heq).1
    cases h
  · rw [if_neg]
    rintro (heq | heq)
    · obtain rfl : c = 'i' := (List.cons.inj heq).1
      cases h
    · obtain rfl : c = 'i' := (List.cons.inj heq).1
      cases h

theorem ofChars?_finite (x : Scaled) : ofChars? (x.chars.map Char.toLower) = some (.finite x) := by
  obtain ⟨body, hbody, hchars⟩ := chars_finite x
  obtain ⟨d, rest, rfl, hd⟩ := hbody.begins
  have hread := hbody.read x.negative
  rw [List.map_cons, toLower_of_isDigit hd] at hread
  rw [hchars, ← hread]
  cases hneg : x.negative with
  | false =>
    rw [if_neg (by simp), List.map_cons, toLower_of_isDigit hd]
    exact ofChars?_of_isDigit (splitSign_of_isDigit hd) hd
  | true =>
    rw [if_pos rfl, List.map_cons, List.map_cons, toLower_of_isDigit hd]
    exact ofChars?_of_isDigit rfl hd

theorem ofChars?_nan (signaling negative : Bool) (payload : ℕ) :
    ofChars? ((nan signaling negative payload).chars.map Char.toLower) =
      some (.nan signaling negative payload) := by
  have hvalue : Nat.ofDigitChars 10 (Nat.toDigits 10 payload) 0 = payload :=
    Nat.ofDigitChars_toDigits (by decide) (by decide)
  set digits := if payload = 0 then [] else Nat.toDigits 10 payload with hset
  have hdigits : isDigits digits = true := by
    rw [hset]
    split
    · rfl
    · exact isDigits_toDigits payload
  have hread : readNan? signaling negative digits = some (.nan signaling negative payload) := by
    simp only [readNan?, hdigits, if_true]
    rw [hset]
    split
    · next h => rw [h, Nat.ofDigitChars_nil]
    · rw [hvalue]
  simp only [chars, List.map_append, ← hset, map_toLower_digits hdigits]
  cases negative <;> cases signaling <;> exact hread

theorem ofChars?_chars (d : Decimal) : ofChars? (d.chars.map Char.toLower) = some d := by
  cases d with
  | finite x => exact ofChars?_finite x
  | infinite negative => cases negative <;> decide
  | nan signaling negative payload => exact ofChars?_nan signaling negative payload

theorem all_isTextChar (d : Decimal) : ∀ c ∈ d.chars, IsTextChar c := by
  have hsign : ∀ negative : Bool, ∀ c ∈ (if negative then ['-'] else []), IsTextChar c := by
    intro negative
    cases negative <;> exact isTextChar_of_all rfl
  cases d with
  | finite x =>
    obtain ⟨body, hbody, hchars⟩ := chars_finite x
    have hsplit : (finite x).chars = (if x.negative then ['-'] else []) ++ body := by
      rw [show (finite x).chars = x.chars from rfl, hchars]
      split <;> rfl
    rw [hsplit]
    exact List.forall_mem_append.mpr ⟨hsign x.negative, hbody.all_isTextChar⟩
  | infinite negative =>
    exact List.forall_mem_append.mpr ⟨hsign negative, isTextChar_of_all rfl⟩
  | nan signaling negative payload =>
    have hsignaling : ∀ c ∈ (if signaling then ['s'] else []), IsTextChar c := by
      cases signaling <;> exact isTextChar_of_all rfl
    have hpayload : ∀ c ∈ (if payload = 0 then [] else Nat.toDigits 10 payload), IsTextChar c := by
      split
      · exact isTextChar_of_all rfl
      · exact fun c hc =>
          isTextChar_of_isDigit (List.all_eq_true.mp (isDigits_toDigits payload) c hc)
    simp only [chars, List.forall_mem_append]
    exact ⟨⟨⟨hsign negative, hsignaling⟩, isTextChar_of_all rfl⟩, hpayload⟩

theorem trim_eq_self (h : ∀ c ∈ cs, isSpace c = false) : trim cs = cs := by
  have hdrop : ∀ {cs : List Char}, (∀ c ∈ cs, isSpace c = false) → cs.dropWhile isSpace = cs := by
    intro cs h
    cases cs with
    | nil => rfl
    | cons c cs => rw [List.dropWhile_cons_of_neg (by simp [h c List.mem_cons_self])]
  rw [trim, hdrop h, hdrop (fun c hc => h c (List.mem_reverse.mp hc)), List.reverse_reverse]

theorem ofText?_text (d : Decimal) : ofText? d.text = some d := by
  have hchars := d.all_isTextChar
  have hfilter : d.chars.filter (· ≠ '_') = d.chars :=
    List.filter_eq_self.mpr fun c hc => by simpa using (hchars c hc).2
  rw [ofText?, text, String.toList_ofList, trim_eq_self fun c hc => (hchars c hc).not_isSpace,
    hfilter, ofChars?_chars]

theorem text_injective : Function.Injective text := by
  intro x y h
  exact Option.some.inj ((ofText?_text x).symm.trans (h ▸ ofText?_text y))

theorem ofInt_injective : Function.Injective ofInt := by
  intro m n h
  simp only [ofInt, Scaled.ofInt, finite.injEq, Scaled.mk.injEq, decide_eq_decide] at h
  omega

theorem text_ofInt (n : ℤ) : (ofInt n).text = toString n := by
  have hplaces : ∀ negative c, (⟨negative, c, 0⟩ : Scaled).chars =
      if negative then '-' :: Nat.toDigits 10 c else Nat.toDigits 10 c := by
    intro negative c
    have hlength : 0 < (Nat.toDigits 10 c).length := List.length_pos_iff.mpr Nat.toDigits_ne_nil
    have hpoint : -6 < ((Nat.toDigits 10 c).length : ℤ) := by omega
    simp [Scaled.chars, Scaled.positional, hpoint]
  simp only [text, ofInt, chars, Scaled.ofInt, hplaces]
  cases n with
  | ofNat m => rfl
  | negSucc m =>
    rw [if_pos (by simp)]
    change String.ofList ('-' :: Nat.toDigits 10 (m + 1)) =
      "-" ++ String.ofList (Nat.toDigits 10 (m + 1))
    exact String.toList_injective (by simp)

end Decimal

end ContractGuard
