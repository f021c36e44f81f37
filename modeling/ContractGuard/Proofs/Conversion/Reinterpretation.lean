import ContractGuard.Proofs.Conversion.Literal
import Mathlib.Data.Int.ModEq

/-!
# Reading bytes as integers

A byte string and an unsigned integer of the same width are two spellings of one number: the
conversions between them succeed and undo each other, and the order of the strings is that of
the numbers. A signed integer of the width is the same number up to the modulus.
-/

namespace ContractGuard

namespace BigEndian

variable {bs bs' : List UInt8}

theorem count_succ (length : ℕ) : count (length + 1) = count length * 256 :=
  Nat.pow_succ 256 length

theorem decode_encode {length n : ℕ} (h : n < count length) : decode (encode length n) = n := by
  induction length generalizing n with
  | zero =>
    have hzero : n < 1 := h
    obtain rfl : n = 0 := by omega
    rfl
  | succ length ih =>
    have hquotient : n / 256 < count length := by
      rw [Nat.div_lt_iff_lt_mul (by decide), ← count_succ]
      exact h
    rw [encode, decode_append, ih hquotient, UInt8.toNat_ofNat']
    omega

theorem encode_decode (bs : List UInt8) : encode bs.length (decode bs) = bs := by
  induction bs using List.reverseRecOn with
  | nil => rfl
  | append_singleton bs b ih =>
    have hb := b.toNat_lt
    have hquotient : (256 * decode bs + b.toNat) / 256 = decode bs := by omega
    have hlast : UInt8.ofNat (256 * decode bs + b.toNat) = b := by
      rw [← UInt8.toNat_inj, UInt8.toNat_ofNat']
      omega
    rw [decode_append, List.length_append, List.length_singleton, encode, hquotient, hlast, ih]

theorem decode_injective (hlength : bs.length = bs'.length) (h : decode bs = decode bs') :
    bs = bs' := by
  rw [← encode_decode bs, ← encode_decode bs', hlength, h]

theorem decode_cons (b : UInt8) (bs : List UInt8) :
    decode (b :: bs) = b.toNat * count bs.length + decode bs := by
  induction bs using List.reverseRecOn with
  | nil => simp [decode, count]
  | append_singleton bs c ih =>
    rw [← List.cons_append, decode_append, ih, decode_append, List.length_append,
      List.length_singleton, count_succ]
    ring

theorem decode_lt_iff (h : bs.length = bs'.length) : decode bs < decode bs' ↔ bs < bs' := by
  induction bs generalizing bs' with
  | nil =>
    obtain rfl : bs' = [] := List.length_eq_zero_iff.mp h.symm
    exact iff_of_false (lt_irrefl _) (List.not_lt_nil _)
  | cons b bs ih =>
    cases bs' with
    | nil => simp at h
    | cons b' bs' =>
      have hlength : bs.length = bs'.length := Nat.succ.inj h
      have hlt := decode_lt bs
      have hlt' := decode_lt bs'
      rw [decode_cons, decode_cons, List.cons_lt_cons_iff, ← ih hlength, hlength,
        UInt8.lt_iff_toNat_lt, ← UInt8.toNat_inj]
      rw [hlength] at hlt
      -- the first bytes decide unless they are equal, since the rest stays below one unit of them
      generalize count bs'.length = modulus at hlt hlt'
      rcases lt_trichotomy b.toNat b'.toNat with hb | hb | hb
      · have hstep : (b.toNat + 1) * modulus ≤ b'.toNat * modulus := Nat.mul_le_mul_right _ hb
        rw [Nat.succ_mul] at hstep
        exact iff_of_true (by omega) (.inl hb)
      · simp [hb]
      · have hstep : (b'.toNat + 1) * modulus ≤ b.toNat * modulus := Nat.mul_le_mul_right _ hb
        rw [Nat.succ_mul] at hstep
        exact iff_of_false (by omega) (by omega)

theorem decodeSigned_modEq (bs : List UInt8) :
    decodeSigned bs ≡ decode bs [ZMOD count bs.length] := by
  simp only [decodeSigned]
  split_ifs
  · rfl
  · exact Int.modEq_iff_dvd.mpr ⟨1, by ring⟩

theorem decodeSigned_injective (hlength : bs.length = bs'.length)
    (h : decodeSigned bs = decodeSigned bs') : bs = bs' := by
  have hmod := (decodeSigned_modEq bs).symm.trans (h ▸ hlength ▸ decodeSigned_modEq bs')
  have hlt' := decode_lt bs'
  rw [← hlength] at hlt'
  exact decode_injective hlength
    ((Int.natCast_modEq_iff.mp hmod).eq_of_lt_of_lt (decode_lt bs) hlt')

theorem eq_of_modEq {m n modulus : ℤ} (low : ℤ) (h : m ≡ n [ZMOD modulus])
    (hm : low ≤ m ∧ m < low + modulus) (hn : low ≤ n ∧ n < low + modulus) : m = n := by
  have hzero := Int.eq_zero_of_abs_lt_dvd h.dvd (by rw [abs_lt]; omega)
  omega

/-- The signed reading is the number of its range that has this remainder. -/
theorem eq_decodeSigned_iff (hpos : 0 < bs.length) (m : ℤ) :
    m = decodeSigned bs ↔
      (-2 ^ (8 * bs.length - 1) ≤ m ∧ m ≤ 2 ^ (8 * bs.length - 1) - 1) ∧
        m ≡ decode bs [ZMOD 2 ^ (8 * bs.length)] := by
  have hbounds := decodeSigned_bounds hpos
  have hmod := decodeSigned_modEq bs
  have hpow : (2 : ℤ) ^ (8 * bs.length) = 2 * 2 ^ (8 * bs.length - 1) := by
    rw [← pow_succ', show 8 * bs.length - 1 + 1 = 8 * bs.length by omega]
  rw [count_eq] at hmod
  push_cast at hmod
  constructor
  · rintro rfl
    exact ⟨hbounds, hmod⟩
  · -- the range holds each remainder once
    rintro ⟨hm, hmodm⟩
    refine eq_of_modEq (-2 ^ (8 * bs.length - 1)) (hmodm.trans hmod.symm) ?_ ?_
    · rw [hpow]
      omega
    · rw [hpow]
      omega

end BigEndian

open ScalarType

variable {source target : ScalarType} {p q q' : Payload} {width length : ℕ} {bs : List UInt8}
  {n : ℤ}

namespace Procedure

theorem forKind_integer {kind : ScalarKind} (hk : kind = .uint ∨ kind = .int) :
    forKind kind = toInteger := by
  rcases hk with rfl | rfl <;> rfl

theorem toInteger_bytes (hs : source.kind = .bytes) (hbits : source.bits = target.bits)
    (operand : Option ValueId) (span : Span) :
    toInteger.run ⟨source, .bytes bs, true, operand⟩ target span = .ok ⟨.bytesToInt,
      .int (if target.signed then BigEndian.decodeSigned bs else BigEndian.decode bs)⟩ := by
  simp [toInteger, hs, hbits, ifLiteral, Payload.toBytes, bind, Except.bind, pure, Except.pure]

theorem toBytes_integer {n : ℕ} (hs : source.kind = .uint) (hbits : source.bits = target.bits)
    (hlength : target.byteLength = length) (hn : n < BigEndian.count length)
    (operand : Option ValueId) (span : Span) :
    toBytes.run ⟨source, .int n, true, operand⟩ target span =
      .ok ⟨.intToBytes, .bytes (BigEndian.encode length n)⟩ := by
  have hencode : unsignedBytes length n = .ok (BigEndian.encode length n) :=
    unsignedBytes_eq_ok (Int.natCast_nonneg length) (Int.natCast_nonneg n) hn
  simp [toBytes, hs, hbits, hlength, ifLiteral, Payload.toInt, hencode, bind, Except.bind, pure,
    Except.pure]

end Procedure

namespace Registry

/-- The literal becomes one of the target, whether or not an id holds it and whatever code was
emitted before. -/
def Becomes (source : ScalarType) (p : Payload) (target : ScalarType) (q : Payload) : Prop :=
  ∀ operand span b, ∃ dest b',
    (Registry.default.convert ⟨source, p, true, operand⟩ target.name span).Yields b
      ⟨target, q, true, some dest⟩ b'

theorem Becomes.unique (h : Becomes source p target q) (h' : Becomes source p target q') :
    q = q' := by
  obtain ⟨_, _, hy⟩ := h none {} { name := "" }
  obtain ⟨_, _, hy'⟩ := h' none {} { name := "" }
  obtain ⟨hvalue, -⟩ := Prod.mk.inj (hy.symm.trans hy')
  exact congrArg TypedValue.value (Except.ok.inj hvalue)

theorem becomes_of_run (mode : ConvertMode) (hs : source ∈ table) (ht : target ∈ table)
    (hbytes : source.kind = .bytes ∨ target.kind = .bytes) (hp : source.Admits p)
    (hq : target.Admits q)
    (hrun : ∀ operand span, (Procedure.forKind target.kind).run ⟨source, p, true, operand⟩ target
      span = .ok ⟨mode, q⟩) : Becomes source p target q := by
  intro operand span b
  have hplan : ConversionEntry.plan ⟨target, usual target⟩ ⟨source, p, true, operand⟩ span =
      .ok ⟨mode, q⟩ := by
    refine ConversionEntry.plan_eq_ok.mpr
      ⟨fun _ => (literalInRange_iff hs).mpr hp, fun _ hsource htarget => ?_, hrun operand span,
        fun _ => (literalInRange_iff ht).mpr hq⟩
    rw [isNumeric_iff] at hsource htarget
    exact absurd hbytes (not_or.mpr ⟨hsource, htarget⟩)
  obtain ⟨w, b', hconvert, he⟩ :=
    convert_of_planned (resolve_default_mem ht span) hplan ⟨_, bounds_eq ht⟩ b
  obtain ⟨dest, -, -, rfl, -, -⟩ := he.clamped
  exact ⟨dest, b', hconvert⟩

theorem bytes_become (hs : byteString bs.length ∈ table) (ht : target ∈ table)
    (hk : target.kind = .uint ∨ target.kind = .int) (hbits : target.bits = 8 * bs.length) :
    Becomes (byteString bs.length) (.bytes bs) target
      (.int (if target.signed then BigEndian.decodeSigned bs else BigEndian.decode bs)) := by
  have hlength : (bs.length : ℤ) = (byteString bs.length).byteLength := by
    simp [byteLength, byteString]
  refine becomes_of_run .bytesToInt hs ht (.inl rfl) (admits_bytes hs rfl hlength)
    ((admits_int ht hk).mpr (inRange_reread ht hk hbits)) fun operand span => ?_
  rw [Procedure.forKind_integer hk]
  exact Procedure.toInteger_bytes rfl hbits.symm operand span

theorem integer_becomes {n : ℕ} (hs : uint (8 * length) ∈ table) (ht : byteString length ∈ table)
    (hn : n < BigEndian.count length) :
    Becomes (uint (8 * length)) (.int n) (byteString length)
      (.bytes (BigEndian.encode length n)) := by
  have hlength : (byteString length).byteLength = length := by simp [byteLength, byteString]
  have hbits : (uint (8 * length)).bits = (byteString length).bits := by simp [uint, byteString]
  have hrange : (uint (8 * length)).InRange (n : ℤ) := by
    have hpow : ((2 ^ (8 * length) : ℕ) : ℤ) = 2 ^ (8 * length) := by push_cast; rfl
    rw [BigEndian.count_eq] at hn
    rw [inRange_int hs (.inl rfl)]
    simp only [lowest, highest, uint, Int.toNat_natCast]
    omega
  refine becomes_of_run .intToBytes hs ht (.inr rfl)
    ((admits_int hs (.inl rfl)).mpr hrange) (admits_bytes ht rfl ?_) ?_
  · rw [BigEndian.length_encode, hlength]
  · exact Procedure.toBytes_integer rfl hbits hlength hn

structure Inverse (width : ℕ) : Prop where
  fromBytes : ∀ bs : List UInt8, 8 * bs.length = width →
    Becomes (byteString bs.length) (.bytes bs) (uint width) (.int (BigEndian.decode bs)) ∧
      Becomes (uint width) (.int (BigEndian.decode bs)) (byteString bs.length) (.bytes bs)
  fromInteger : ∀ u : ℤ, 0 ≤ u → u ≤ 2 ^ width - 1 → ∃ bs : List UInt8, 8 * bs.length = width ∧
    Becomes (uint width) (.int u) (byteString bs.length) (.bytes bs) ∧
      Becomes (byteString bs.length) (.bytes bs) (uint width) (.int u)
  signed : ∀ (bs : List UInt8) (u : ℤ), 8 * bs.length = width →
    Becomes (byteString bs.length) (.bytes bs) (uint width) (.int u) →
    ∃ n : ℤ, Becomes (byteString bs.length) (.bytes bs) (int width) (.int n) ∧
      ∀ m : ℤ, m = n ↔
        (-2 ^ (width - 1) ≤ m ∧ m ≤ 2 ^ (width - 1) - 1) ∧ m ≡ u [ZMOD 2 ^ width]
  distinct : ∀ target, target = uint width ∨ target = int width →
    ∀ (bs bs' : List UInt8) (n n' : ℤ), 8 * bs.length = width → 8 * bs'.length = width →
      Becomes (byteString bs.length) (.bytes bs) target (.int n) →
      Becomes (byteString bs'.length) (.bytes bs') target (.int n') → bs ≠ bs' → n ≠ n'
  ordered : ∀ (bs bs' : List UInt8) (n n' : ℤ), 8 * bs.length = width → 8 * bs'.length = width →
    Becomes (byteString bs.length) (.bytes bs) (uint width) (.int n) →
    Becomes (byteString bs'.length) (.bytes bs') (uint width) (.int n') → (n < n' ↔ bs < bs')

theorem mem_table_of_byteWidths : ∀ length ∈ byteWidths,
    uint (8 * length) ∈ table ∧ int (8 * length) ∈ table ∧ byteString length ∈ table := by
  decide

theorem byteWidths_pos : ∀ length ∈ byteWidths, 0 < length := by decide

theorem mem_byteWidths (h : 8 * length ∈ widths) : length ∈ byteWidths := by
  simp only [widths, byteWidths, List.mem_cons, List.not_mem_nil, or_false] at h ⊢
  omega

section

variable (hw : width ∈ widths) (hlength : 8 * bs.length = width)

include hw hlength

theorem bytes_become_unsigned :
    Becomes (byteString bs.length) (.bytes bs) (uint width) (.int (BigEndian.decode bs)) := by
  subst hlength
  obtain ⟨hu, -, hb⟩ := mem_table_of_byteWidths _ (mem_byteWidths hw)
  exact bytes_become hb hu (.inl rfl) (by simp [uint])

theorem bytes_become_signed :
    Becomes (byteString bs.length) (.bytes bs) (int width)
      (.int (BigEndian.decodeSigned bs)) := by
  subst hlength
  obtain ⟨-, hi, hb⟩ := mem_table_of_byteWidths _ (mem_byteWidths hw)
  exact bytes_become hb hi (.inr rfl) (by simp [int])

theorem unsigned_eq (h : Becomes (byteString bs.length) (.bytes bs) (uint width) (.int n)) :
    n = BigEndian.decode bs :=
  Payload.int.inj (h.unique (bytes_become_unsigned hw hlength))

theorem signed_eq (h : Becomes (byteString bs.length) (.bytes bs) (int width) (.int n)) :
    n = BigEndian.decodeSigned bs :=
  Payload.int.inj (h.unique (bytes_become_signed hw hlength))

end

/-- Nothing is lost between the byte strings and the integers of one width, in either
direction. -/
theorem inverse_of_width (hw : width ∈ widths) : Inverse width := by
  constructor
  case fromBytes =>
    intro bs hlength
    have hforth := bytes_become_unsigned hw hlength
    subst hlength
    obtain ⟨hu, -, hb⟩ := mem_table_of_byteWidths _ (mem_byteWidths hw)
    have hback := integer_becomes hu hb (BigEndian.decode_lt bs)
    rw [BigEndian.encode_decode] at hback
    exact ⟨hforth, hback⟩
  case fromInteger =>
    intro u hnonneg hle
    obtain ⟨n, rfl⟩ := Int.eq_ofNat_of_zero_le hnonneg
    obtain ⟨length, rfl⟩ : ∃ length, width = 8 * length :=
      ⟨_, (show ∀ width ∈ widths, width = 8 * (width / 8) by decide) width hw⟩
    obtain ⟨hu, -, hb⟩ := mem_table_of_byteWidths _ (mem_byteWidths hw)
    have hn : n < BigEndian.count length := by
      rw [BigEndian.count_eq]
      zify
      omega
    have hlength := BigEndian.length_encode length n
    have hforth := integer_becomes hu hb hn
    have hback := bytes_become_unsigned hw (congrArg (8 * ·) hlength)
    rw [BigEndian.decode_encode hn] at hback
    exact ⟨_, congrArg (8 * ·) hlength, by rwa [hlength], hback⟩
  case signed =>
    intro bs u hlength hbecomes
    obtain rfl := unsigned_eq hw hlength hbecomes
    refine ⟨_, bytes_become_signed hw hlength, ?_⟩
    subst hlength
    exact BigEndian.eq_decodeSigned_iff (byteWidths_pos _ (mem_byteWidths hw))
  case distinct =>
    rintro target (rfl | rfl) bs bs' n n' hlength hlength' h h' hne rfl
    · have hdecode := (unsigned_eq hw hlength h).symm.trans (unsigned_eq hw hlength' h')
      exact hne (BigEndian.decode_injective (by omega) (Int.natCast_inj.mp hdecode))
    · have hdecode := (signed_eq hw hlength h).symm.trans (signed_eq hw hlength' h')
      exact hne (BigEndian.decodeSigned_injective (by omega) hdecode)
  case ordered =>
    intro bs bs' n n' hlength hlength' h h'
    rw [unsigned_eq hw hlength h, unsigned_eq hw hlength' h', Nat.cast_lt]
    exact BigEndian.decode_lt_iff (by omega)

theorem inverse_of_width_byte :
    8 ∈ widths ∧ Becomes (byteString 1) (.bytes [255]) (uint 8) (.int 255) ∧
      Becomes (byteString 1) (.bytes [255]) (int 8) (.int (-1)) := by
  have hw : 8 ∈ widths := by decide
  have hinverse := inverse_of_width hw
  have hunsigned := (hinverse.fromBytes [255] rfl).1
  obtain ⟨n, hn, hiff⟩ := hinverse.signed [255] 255 rfl hunsigned
  obtain rfl : -1 = n := (hiff (-1)).mpr (by decide)
  exact ⟨hw, hunsigned, hn⟩

end Registry

end ContractGuard
