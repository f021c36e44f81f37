import ContractGuard.Proofs.Decimal.Exact
import ContractGuard.Proofs.Syntax.Grammar

/-!
# Writing numerals

Integers are written with their digits, decimals with all their places, and byte strings
with two digits for each byte. The numerals are read as what they were written for: a
decimal keeps its digits and its exponent, and so does its negative, if the context of the
sign has room for them.
-/

namespace ContractGuard

namespace Numeral

variable {c n places : ℕ} {digits : List Char}

theorem toDigits_wellFormed (n : ℕ) : (Lexeme.integer (Nat.toDigits 10 n)).WellFormed :=
  ⟨Nat.toDigits_ne_nil,
    List.all_eq_true.mpr fun _ => Nat.isDigit_of_mem_toDigits (by decide) (by decide)⟩

theorem ofDigitChars_dropWhile (digits : List Char) :
    Nat.ofDigitChars 10 (digits.dropWhile (· = '0')) 0 = Nat.ofDigitChars 10 digits 0 := by
  induction digits with
  | nil => rfl
  | cons d digits ih =>
    by_cases hd : d = '0'
    · subst hd
      rw [List.dropWhile_cons_of_pos (by simp), ih, Nat.ofDigitChars_cons]
      rfl
    · rw [List.dropWhile_cons_of_neg (by simpa using hd)]

theorem magnitude?_toDigits (h : n < 10 ^ 78) : magnitude? (Nat.toDigits 10 n) = .ok n := by
  have hlength : (Nat.toDigits 10 n).length ≤ 78 :=
    (Nat.length_toDigits_le_iff (by decide) (by decide)).mpr h
  have hsignificant := (List.dropWhile_sublist (· = '0') (l := Nat.toDigits 10 n)).length_le
  have hfew : ¬ maxDigits < ((Nat.toDigits 10 n).dropWhile (· = '0')).length :=
    Nat.not_lt.mpr (hsignificant.trans hlength)
  simp only [magnitude?]
  rw [if_neg hfew, ofDigitChars_dropWhile, Nat.ofDigitChars_toDigits (by decide) (by decide)]

theorem integer_toDigits (h : n < 10 ^ 78) :
    integer (Nat.toDigits 10 n) = .ok ⟨.int n, .uint 256⟩ := by
  rw [integer, magnitude?_toDigits h]
  rfl

theorem negativeInteger_toDigits (h : n < 10 ^ 78) :
    negativeInteger (Nat.toDigits 10 n) = .ok ⟨.int (-n), .int 256⟩ := by
  rw [negativeInteger, magnitude?_toDigits h]
  rfl

def hexPairs (bs : List UInt8) : List Char :=
  bs.flatMap fun b => [Nat.digitChar (b.toNat / 16), Nat.digitChar (b.toNat % 16)]

theorem hexDigitValue_digitChar : ∀ n < 16, hexDigitValue (Nat.digitChar n) = n := by decide

theorem isHexDigit_digitChar : ∀ n < 16, Lexeme.isHexDigit (Nat.digitChar n) = true := by decide

theorem bytePairs_hexPairs (bs : List UInt8) : bytePairs (hexPairs bs) = bs := by
  induction bs with
  | nil => rfl
  | cons b bs ih =>
    have hb := b.toNat_lt
    have hsplit : 16 * (b.toNat / 16) + b.toNat % 16 = b.toNat := Nat.div_add_mod b.toNat 16
    change UInt8.ofNat _ :: bytePairs (hexPairs bs) = b :: bs
    rw [hexDigitValue_digitChar _ (by omega), hexDigitValue_digitChar _ (by omega), hsplit, ih,
      UInt8.ofNat_toNat]

theorem length_hexPairs (bs : List UInt8) : (hexPairs bs).length = 2 * bs.length := by
  simp [hexPairs, List.length_flatMap, Nat.mul_comm]

theorem hexPairs_wellFormed {bs : List UInt8} (h : bs ≠ []) :
    (Lexeme.hex (hexPairs bs)).WellFormed := by
  refine ⟨?_, ?_⟩
  · rw [← List.length_pos_iff, length_hexPairs]
    have := List.length_pos_iff.mpr h
    omega
  · simp only [hexPairs, List.all_flatMap, List.all_eq_true]
    intro b _
    have hb := b.toNat_lt
    simp [isHexDigit_digitChar (b.toNat / 16) (by omega),
      isHexDigit_digitChar (b.toNat % 16) (by omega)]

theorem hex_hexPairs {bs : List UInt8} (h : bs.length ∈ ScalarType.byteWidths) :
    hex (hexPairs bs) = .ok ⟨.bytes bs, .byteString bs.length⟩ := by
  simp only [hex, length_hexPairs, bytePairs_hexPairs]
  rw [if_neg (by omega), if_pos (List.contains_iff_mem.mpr h)]

/-- The digits of a decimal, at least one of them before the point. -/
def padded (c places : ℕ) : List Char :=
  List.replicate (places + 1 - (Nat.toDigits 10 c).length) '0' ++ Nat.toDigits 10 c

def whole (c places : ℕ) : List Char := (padded c places).take ((padded c places).length - places)

def fraction (c places : ℕ) : List Char :=
  (padded c places).drop ((padded c places).length - places)

theorem lt_length_padded (c places : ℕ) : places < (padded c places).length := by
  simp only [padded, List.length_append, List.length_replicate]
  omega

theorem whole_append_fraction (c places : ℕ) :
    whole c places ++ fraction c places = padded c places := List.take_append_drop _ _

theorem length_fraction (c places : ℕ) : (fraction c places).length = places := by
  have := lt_length_padded c places
  simp only [fraction, List.length_drop]
  omega

theorem padded_all_isDigit (c places : ℕ) : (padded c places).all Char.isDigit = true := by
  simp only [padded, List.all_append, Bool.and_eq_true]
  exact ⟨by simp, (toDigits_wellFormed c).2⟩

theorem decimal_wellFormed (c : ℕ) (h : 0 < places) :
    (Lexeme.decimal (whole c places) (fraction c places)).WellFormed := by
  have hlength := lt_length_padded c places
  have hall := padded_all_isDigit c places
  rw [← whole_append_fraction, List.all_append, Bool.and_eq_true] at hall
  refine ⟨⟨?_, hall.1⟩, ?_, hall.2⟩
  · rw [← List.length_pos_iff, whole, List.length_take]
    omega
  · rwa [← List.length_pos_iff, length_fraction]

theorem readOn_eq (total part scale : ℕ) (digits : List Char) :
    readOn total part scale digits = Nat.ofDigitChars 10 digits (total * scale + part) := by
  induction digits generalizing total part scale with
  | nil => rfl
  | cons c digits ih =>
    simp only [readOn]
    split_ifs
    · rw [ih, Nat.ofDigitChars_cons, Nat.mul_add, Nat.mul_left_comm, Nat.add_assoc]
    · rw [ih, Nat.ofDigitChars_cons, Nat.mul_comm 10]

theorem decimalOf_eq (whole fraction : List Char) :
    decimalOf whole fraction =
      .finite ⟨false, Nat.ofDigitChars 10 (whole ++ fraction) 0, -fraction.length⟩ := by
  simp only [decimalOf, readOn_eq]

theorem decimalOf_whole_fraction (c places : ℕ) :
    decimalOf (whole c places) (fraction c places) = .finite ⟨false, c, -places⟩ := by
  have hpadded : Nat.ofDigitChars 10 (padded c places) 0 = c := by
    rw [← ofDigitChars_dropWhile, padded, List.dropWhile_append_of_pos (by simp),
      ofDigitChars_dropWhile, Nat.ofDigitChars_toDigits (by decide) (by decide)]
  rw [decimalOf_eq, whole_append_fraction, hpadded, length_fraction]

theorem fit_plain {x : Scaled} (hc : x.coefficient ≠ 0) (hdigits : x.coefficient < 10 ^ 28)
    (hlow : Context.plain.tiny ≤ x.exponent) (hhigh : x.exponent ≤ Context.plain.top) :
    Context.plain.fit x = .ok x := by
  have hcount : digitCount x.coefficient ≤ 28 := (digitCount_le_iff (by decide)).mpr hdigits
  have hprecision : (Context.plain.precision : ℤ) = 28 := rfl
  rw [Context.fit_eq hc, if_neg (by omega), if_pos]
  simp only [Context.keptPlace]
  omega

theorem digitCount_eq {k : ℕ} (hlow : 10 ^ k ≤ n) (hhigh : n < 10 ^ (k + 1)) :
    digitCount n = k + 1 := by
  have hle : digitCount n ≤ k + 1 := (digitCount_le_iff (Nat.succ_pos k)).mpr hhigh
  have hlt : k < digitCount n :=
    (Nat.pow_lt_pow_iff_right (by decide)).mp (hlow.trans_lt (lt_pow_digitCount n))
  omega

theorem digitCount_mul_tenPow {k : ℕ} (hlow : 10 ^ k ≤ c) (hhigh : c < 10 ^ (k + 1)) (count : ℕ) :
    digitCount (c * tenPow count) = k + 1 + count := by
  have hlow' : 10 ^ (k + count) ≤ c * tenPow count := by
    rw [Nat.pow_add]
    exact Nat.mul_le_mul_right _ hlow
  have hhigh' : c * tenPow count < 10 ^ (k + 1 + count) := by
    rw [Nat.pow_add]
    exact Nat.mul_lt_mul_of_pos_right hhigh (tenPow_pos count)
  rw [Nat.add_right_comm] at hhigh' ⊢
  exact digitCount_eq hlow' hhigh'

theorem fit_plain_zeros (negative : Bool) {exponent : ℕ} (hlow : 10 ^ 27 ≤ c) (hhigh : c < 10 ^ 28)
    (hexponent : (exponent : ℤ) ≤ Context.plain.top) :
    Context.plain.fit ⟨negative, c * tenPow (exponent + 1), -1⟩ = .ok ⟨negative, c, exponent⟩ := by
  have hpow := tenPow_pos (exponent + 1)
  have hprecision : (Context.plain.precision : ℤ) = 28 := rfl
  have hcount := digitCount_mul_tenPow hlow hhigh (exponent + 1)
  have hplace : Context.plain.keptPlace ⟨negative, c * tenPow (exponent + 1), -1⟩ = exponent := by
    have htiny : Context.plain.tiny = -1000026 := rfl
    simp only [Context.keptPlace, hcount]
    omega
  have hkept : Context.plain.keptDigits ⟨negative, c * tenPow (exponent + 1), -1⟩ = c := by
    have hdropped : ((exponent : ℤ) - -1).toNat = exponent + 1 := by omega
    simp only [Context.keptDigits, hplace, hdropped]
    rw [Rounding.drop_exact ⟨c, Nat.mul_comm _ _⟩, Nat.mul_div_cancel c hpow]
  have hdigits : digitCount c ≤ Context.plain.precision :=
    (digitCount_le_iff (by decide)).mpr hhigh
  have hne : c * tenPow (exponent + 1) ≠ 0 := Nat.mul_ne_zero (by omega) hpow.ne'
  rw [Context.fit_eq hne, hplace, hkept, if_neg (by simp only [hcount]; omega),
    if_neg (by simp only []; omega), if_pos hdigits]

theorem negativeDecimal_eq_ok {whole fraction : List Char} {x y : Scaled}
    (hx : decimalOf whole fraction = .finite x) (hc : x.coefficient ≠ 0)
    (hy : Context.plain.fit x.flip = .ok y) :
    negativeDecimal whole fraction = .ok ⟨.decimal (.finite y), .fixed⟩ := by
  simp only [negativeDecimal, hx, Decimal.neg, if_neg hc, hy]
  rfl

/-- The number that a decimal is written for. -/
def written (whole fraction : List Char) : ℚ :=
  Nat.ofDigitChars 10 (whole ++ fraction) 0 * 10 ^ (-fraction.length : ℤ)

theorem written_nonneg (whole fraction : List Char) : 0 ≤ written whole fraction :=
  mul_nonneg (Nat.cast_nonneg _) (zpow_ten_pos _).le

theorem decimalOf_val (whole fraction : List Char) :
    ∃ x, decimalOf whole fraction = .finite x ∧ x.negative = false ∧
      x.val = written whole fraction :=
  ⟨_, decimalOf_eq whole fraction, rfl, rfl⟩

theorem negativeDecimal_eq_fit (whole fraction : List Char) :
    ∃ x : Scaled, x.val = -written whole fraction ∧
      negativeDecimal whole fraction =
        match Context.plain.fit x with
        | .ok y => .ok ⟨.decimal (.finite y), .fixed⟩
        | .error s => .error (.signal s) := by
  obtain ⟨x, hx, hnegative, hval⟩ := decimalOf_val whole fraction
  have hflip : (if x.coefficient = 0 then { x with negative := false } else x.flip).val =
      -written whole fraction := by
    split_ifs with hz
    · have hzero : x.val = 0 := Scaled.val_eq_zero.mpr hz
      rw [← hval, hzero, neg_zero]
      exact Scaled.val_eq_zero.mpr hz
    · rw [Scaled.val_flip, hval]
  refine ⟨_, hflip, ?_⟩
  simp only [negativeDecimal, hx, Decimal.neg]
  cases Context.plain.fit (if x.coefficient = 0 then { x with negative := false } else x.flip) <;>
    rfl

theorem negativeDecimal_eq_error {whole fraction : List Char} {fault : NumeralFault} :
    negativeDecimal whole fraction = .error fault ↔
      fault = .signal .overflow ∧ Context.plain.limit ≤ written whole fraction := by
  obtain ⟨x, hval, hneg⟩ := negativeDecimal_eq_fit whole fraction
  have hmagnitude : x.magnitude = written whole fraction := by
    rw [← Scaled.abs_val, hval, abs_neg, abs_of_nonneg (written_nonneg whole fraction)]
  rw [hneg, ← hmagnitude]
  cases hfit : Context.plain.fit x with
  | ok y =>
    have hunder := (Context.fit_defined_iff (by decide) Context.plain_roomy).mp ⟨y, hfit⟩
    simp [hunder]
  | error s =>
    obtain ⟨rfl, hlimit⟩ := (Context.fit_eq_error (by decide) Context.plain_roomy).mp hfit
    simp [hlimit, eq_comm]

/-- There is a negative below the limit, and it is the number written exactly if the context
of a sign holds that. -/
theorem negativeDecimal_keeps (whole fraction : List Char) :
    ((∃ y : Scaled, negativeDecimal whole fraction = .ok ⟨.decimal (.finite y), .fixed⟩) ↔
      written whole fraction < Context.plain.limit) ∧
    ((∃ y : Scaled, negativeDecimal whole fraction = .ok ⟨.decimal (.finite y), .fixed⟩ ∧
        y.val = -written whole fraction) ↔
      Context.plain.Keeps (written whole fraction)) := by
  obtain ⟨x, hval, hneg⟩ := negativeDecimal_eq_fit whole fraction
  have hmagnitude : x.magnitude = written whole fraction := by
    rw [← Scaled.abs_val, hval, abs_neg, abs_of_nonneg (written_nonneg whole fraction)]
  have hok : ∀ y : Scaled,
      negativeDecimal whole fraction = .ok ⟨.decimal (.finite y), .fixed⟩ ↔
        Context.plain.fit x = .ok y := by
    intro y
    rw [hneg]
    cases Context.plain.fit x <;> simp
  rw [← hval, ← hmagnitude]
  simp only [hok]
  exact ⟨Context.fit_defined_iff (by decide) Context.plain_roomy,
    Context.fit_keeps_iff (by decide) Context.plain_roomy⟩

theorem ofDigitChars_lt (h : digits.all Char.isDigit = true) (n : ℕ) :
    Nat.ofDigitChars 10 digits n < (n + 1) * 10 ^ digits.length := by
  induction digits generalizing n with
  | nil => simp
  | cons d digits ih =>
    obtain ⟨hd, hdigits⟩ := Bool.and_eq_true_iff.mp h
    have hvalue : d.toNat - '0'.toNat ≤ 9 := by
      simp only [Char.isDigit, Bool.and_eq_true, decide_eq_true_eq] at hd
      exact Nat.sub_le_sub_right hd.2 _
    rw [Nat.ofDigitChars_cons, List.length_cons, Nat.pow_succ']
    calc Nat.ofDigitChars 10 digits (10 * n + (d.toNat - '0'.toNat))
        < (10 * n + (d.toNat - '0'.toNat) + 1) * 10 ^ digits.length := ih hdigits _
      _ ≤ (n + 1) * 10 * 10 ^ digits.length := Nat.mul_le_mul_right _ (by omega)
      _ = (n + 1) * (10 * 10 ^ digits.length) := Nat.mul_assoc _ _ _

theorem written_lt {whole fraction : List Char} (h : (Lexeme.decimal whole fraction).WellFormed) :
    written whole fraction < 10 ^ (whole.length : ℤ) := by
  have hdigits : (whole ++ fraction).all Char.isDigit = true := by
    rw [List.all_append, h.1.2, h.2.2]
    rfl
  have hlt : (Nat.ofDigitChars 10 (whole ++ fraction) 0 : ℚ) <
      10 ^ ((whole ++ fraction).length : ℤ) := by
    have := ofDigitChars_lt hdigits 0
    rw [Nat.zero_add, Nat.one_mul] at this
    exact_mod_cast this
  calc written whole fraction
      < 10 ^ ((whole ++ fraction).length : ℤ) * 10 ^ (-fraction.length : ℤ) :=
        mul_lt_mul_of_pos_right hlt (zpow_ten_pos _)
    _ = 10 ^ (whole.length : ℤ) := by
        rw [← zpow_ten_add, List.length_append]
        congr 1
        omega

theorem written_power (n : ℕ) :
    written ('1' :: List.replicate n '0') ['0'] = 10 ^ (n : ℤ) := by
  have hdigits : Nat.ofDigitChars 10 ('1' :: List.replicate n '0' ++ ['0']) 0 = 10 ^ (n + 1) := by
    have hzeros : List.replicate n '0' ++ ['0'] = List.replicate (n + 1) '0' :=
      List.replicate_succ'.symm
    rw [List.cons_append, hzeros, Nat.ofDigitChars_cons, Nat.ofDigitChars_replicate_zero]
    exact Nat.mul_one _
  rw [written, hdigits, Nat.cast_pow, ← zpow_natCast]
  change (10 : ℚ) ^ ((n + 1 : ℕ) : ℤ) * 10 ^ (-1 : ℤ) = _
  rw [← zpow_ten_add]
  congr 1
  omega

theorem limit_le_power {n : ℕ} (hn : 1000000 ≤ n) :
    Context.plain.limit ≤ written ('1' :: List.replicate n '0') ['0'] := by
  have htop : Context.plain.precision + Context.plain.top = (1000000 : ℤ) := by decide
  rw [written_power]
  exact (Context.limit_lt _).le.trans (zpow_ten_le (by omega))

theorem power_wellFormed (n : ℕ) :
    (Lexeme.decimal ('1' :: List.replicate n '0') ['0']).WellFormed := by
  refine ⟨⟨List.cons_ne_nil _ _, ?_⟩, by decide⟩
  simp [List.all_replicate]

theorem length_of_limit_le {whole fraction : List Char}
    (h : (Lexeme.decimal whole fraction).WellFormed)
    (hlimit : Context.plain.limit ≤ written whole fraction) : 1000000 ≤ whole.length := by
  by_contra hshort
  have htop : Context.plain.precision + Context.plain.top - 1 = (999999 : ℤ) := by decide
  have hx : ∃ x : Scaled, x.magnitude = written whole fraction := ⟨⟨false, _, _⟩, rfl⟩
  obtain ⟨x, hx⟩ := hx
  have hlt : x.magnitude < 10 ^ (Context.plain.precision + Context.plain.top - 1 : ℤ) := by
    rw [hx]
    exact (written_lt h).trans_le (zpow_ten_le (by omega))
  exact absurd hlimit (not_le_of_gt (hx ▸ Context.lt_limit hlt))

end Numeral

end ContractGuard
