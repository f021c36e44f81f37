import ContractGuard.Proofs.Lowering.Atomic
import ContractGuard.Proofs.Scalar.Legality

/-!
# Converting literals

What comes of a bare literal is decided before any code is emitted. It has to be legal for its
own type, and between numeric types it has to lie in the target's range. Then only a
fractional part is in the way of another number; bytes are read as another type of equally
many bits, where this has a meaning. The payload that the procedure returns is legal for the
target without a further check. An integer too long to be written is legal for no type, and
then the message about it is what fails.
-/

namespace ContractGuard

open ScalarType

variable {source target : ScalarType} {p : Payload} {q : ℚ} {n : ℤ} {span : Span} {b : Buffer}
  {bs : List UInt8}

namespace ScalarType

/-- Between numeric types the number lies in the target's range. -/
def Fits (source target : ScalarType) (d : Datum) : Prop :=
  source.isNumeric = true → target.isNumeric = true → ∀ q, d = .number q → target.InRange q

def Reinterprets (source target : ScalarType) : Prop :=
  match source.kind, target.kind with
  | .bytes, .bytes => source.byteLength = target.byteLength
  | .bytes, .uint | .bytes, .int => target.bits = 8 * source.byteLength
  | .uint, .bytes => source.bits = 8 * target.byteLength
  | _, _ => False

/-- The value has a meaning in the target, in range or not. -/
def Recodes (source target : ScalarType) (d : Datum) : Prop :=
  if source.isNumeric && target.isNumeric then target.kind = .decimal ∨ ∃ n : ℤ, d = .number n
  else source.Reinterprets target

theorem recodes_numeric (hs : source.isNumeric = true) (ht : target.isNumeric = true) (d : Datum) :
    source.Recodes target d ↔ target.kind = .decimal ∨ ∃ n : ℤ, d = .number n := by
  simp [Recodes, hs, ht]

theorem recodes_bytes (h : (source.isNumeric && target.isNumeric) = false) (d : Datum) :
    source.Recodes target d ↔ source.Reinterprets target := by
  simp [Recodes, h]

theorem fits_self (hp : source.Admits p) : source.Fits source p.datum := by
  intro _ _ q hq
  obtain ⟨-, q', hq', hrange⟩ := hq ▸ hp.holds
  obtain rfl : q = q' := Option.some.inj hq'
  exact hrange

theorem eq_of_recast {d e : Datum} (hs : source.isNumeric = true) (ht : target.isNumeric = true)
    (hrecodes : source.Recodes target d) (he : (⟨source, d⟩ : Cell).recast? target = some e) :
    e = d := by
  rw [recodes_numeric hs ht] at hrecodes
  rw [isNumeric_iff] at hs ht
  cases d with
  | number q =>
    cases hk : target.kind with
    | bytes => exact absurd hk ht
    | decimal => cases hkind : source.kind <;> simp_all [Cell.recast?]
    | uint | int =>
      obtain ⟨n, hn⟩ := hrecodes.resolve_left (by simp [hk])
      obtain rfl : q = n := by simpa using hn
      cases hkind : source.kind <;> simp_all [Cell.recast?]
  | bytes bs => cases hkind : source.kind <;> simp_all [Cell.recast?]
  | meaningless => cases hkind : source.kind <;> simp_all [Cell.recast?]

theorem inRange_reread {ty : ScalarType} (h : ty ∈ table) (hk : ty.kind = .uint ∨ ty.kind = .int)
    (hbits : ty.bits = 8 * bs.length) :
    ty.InRange (if ty.signed then BigEndian.decodeSigned bs else BigEndian.decode bs : ℤ) := by
  have hpos := bits_pos ty h
  rw [inRange_int h hk]
  rcases hk with hk | hk
  · have hlt := BigEndian.decode_lt bs
    have hwidth : ty.bits.toNat = 8 * bs.length := by omega
    have hpow : ((2 ^ (8 * bs.length) : ℕ) : ℤ) = 2 ^ (8 * bs.length) := by push_cast; rfl
    rw [BigEndian.count_eq] at hlt
    simp only [lowest, highest, signed, hk, hwidth]
    rw [if_neg (by decide)]
    omega
  · have hwidth : (ty.bits - 1).toNat = 8 * bs.length - 1 := by omega
    simp only [lowest, highest, signed, hk, hwidth]
    exact BigEndian.decodeSigned_bounds (by omega)

theorem admits_bytes {ty : ScalarType} (h : ty ∈ table) (hk : ty.kind = .bytes)
    (hlength : (bs.length : ℤ) = ty.byteLength) : ty.Admits (.bytes bs) :=
  ⟨⟨⟨hk, hlength⟩, _, rfl, inRange_decode h hk hlength⟩, by simp [hk]⟩

end ScalarType

namespace Procedure

inductive Recoded (source target : ScalarType) (p : Payload) (span : Span) :
    Except Fault Converted → Prop
  | done {mode : ConvertMode} {payload : Payload} :
      source.Recodes target p.datum → target.Admits payload →
      Recoded source target p span (.ok ⟨mode, payload⟩)
  | refused {why : String} :
      ¬ source.Recodes target p.datum → Recoded source target p span (refuse source target why span)

theorem wholePart_recoded {x : Scaled} (hsource : source.isNumeric = true) (ht : target ∈ table)
    (hk : target.kind = .uint ∨ target.kind = .int) (hq : p.datum = .number x.val)
    (hrange : target.InRange x.val) :
    Recoded source target p span (wholePart source target (.finite x) span) := by
  have htarget := isNumeric_of_integer hk
  have hwhole : source.Recodes target p.datum ↔ x.hasFraction = false := by
    rw [recodes_numeric hsource htarget, hq, Scaled.hasFraction_eq_false]
    rcases hk with hk | hk <;> simp [hk]
  rw [wholePart]
  cases hfraction : x.hasFraction with
  | true => exact .refused (by simp [hwhole, hfraction])
  | false =>
    obtain ⟨n, hn⟩ := x.hasFraction_eq_false.mp hfraction
    refine .done (hwhole.mpr hfraction) ((admits_int ht hk).mpr ?_)
    rw [Scaled.truncate_eq_whole, hn, whole_intCast, ← hn]
    exact hrange

theorem toInteger_recoded (hs : source ∈ table) (ht : target ∈ table)
    (hk : target.kind = .uint ∨ target.kind = .int) (hp : source.Admits p)
    (hfits : source.Fits target p.datum) :
    Recoded source target p span (toInteger.run (.literal source p) target span) := by
  have hnum := isNumeric_of_integer hk
  cases hkind : source.kind with
  | uint | int =>
    have hsource : source.isNumeric = true := isNumeric_of_integer (by simp [hkind])
    obtain ⟨n, rfl⟩ := hp.integer (by simp [hkind])
    have hrun : toInteger.run (.literal source (.int n)) target span =
        .ok ⟨resizeMode source target, .int n⟩ := by
      simp [toInteger, TypedValue.literal, hkind, ifLiteral, bind, Except.bind, pure, Except.pure]
    rw [hrun]
    refine .done ((recodes_numeric hsource hnum _).mpr (.inr ⟨n, rfl⟩)) ?_
    exact (admits_int ht hk).mpr (hfits hsource hnum n rfl)
  | decimal =>
    have hsource : source.isNumeric = true := by simp [isNumeric_iff, hkind]
    obtain ⟨q, hq⟩ := number_of_holds (by simp [hkind]) hp.holds
    obtain ⟨x, hx, rfl⟩ := Payload.toDecimal_of_datum hq
    have hrun : toInteger.run (.literal source p) target span =
        wholePart source target (.finite x) span := by
      simp [toInteger, TypedValue.literal, hkind, hx, bind, Except.bind]
    rw [hrun]
    exact wholePart_recoded hsource ht hk hq (hfits hsource hnum _ hq)
  | bytes =>
    obtain ⟨bs, hbs, hlength⟩ := bytes_of_holds hkind hp.holds
    obtain rfl := Payload.eq_bytes_of_datum hbs
    have hwidth : source.Recodes target (.bytes bs) ↔ source.bits = target.bits := by
      rw [recodes_bytes (by simp [isNumeric, hkind]), bits_eq source hs hkind, eq_comm]
      rcases hk with hk | hk <;> simp [Reinterprets, hkind, hk]
    by_cases hbits : source.bits = target.bits
    · have hrun : toInteger.run (.literal source (.bytes bs)) target span = .ok ⟨.bytesToInt,
          .int (if target.signed then BigEndian.decodeSigned bs else BigEndian.decode bs)⟩ := by
        simp [toInteger, TypedValue.literal, hkind, hbits, ifLiteral, Payload.toBytes, bind,
          Except.bind, pure, Except.pure]
      rw [hrun]
      refine .done (hwidth.mpr hbits) ((admits_int ht hk).mpr (inRange_reread ht hk ?_))
      rw [← hbits, hlength, bits_eq source hs hkind]
    · have hrun : toInteger.run (.literal source (.bytes bs)) target span =
          refuse source target "byte length must match the integer width" span := by
        simp [toInteger, TypedValue.literal, hkind, hbits]
      rw [hrun]
      exact .refused (hwidth.not.mpr hbits)

theorem toDecimal_recoded (hs : source ∈ table) (ht : target ∈ table)
    (hk : target.kind = .decimal) (hp : source.Admits p) (hfits : source.Fits target p.datum) :
    Recoded source target p span (toDecimal.run (.literal source p) target span) := by
  obtain rfl := eq_fixed target ht hk
  cases hkind : source.kind with
  | uint | int =>
    have hsource : source.isNumeric = true := isNumeric_of_integer (by simp [hkind])
    obtain ⟨n, rfl⟩ := hp.integer (by simp [hkind])
    have hrun : toDecimal.run (.literal source (.int n)) fixed span =
        .ok ⟨.toFixed, .decimal (.ofInt n)⟩ := by
      simp [toDecimal, TypedValue.literal, hkind, ifLiteral, Payload.toDecimal, bind, Except.bind,
        pure, Except.pure]
    rw [hrun]
    refine .done ((recodes_numeric hsource rfl _).mpr (.inl hk)) ⟨?_, by simp [hk]⟩
    have hdatum : (Payload.decimal (.ofInt n)).datum = .number n :=
      congrArg Datum.number (Scaled.val_ofInt n)
    rw [hdatum]
    refine ⟨⟨by decide, n * 10 ^ 18, ?_⟩, n, rfl, hfits hsource rfl n rfl⟩
    push_cast
    rfl
  | decimal =>
    obtain rfl := eq_fixed source hs hkind
    have hrun : toDecimal.run (.literal fixed p) fixed span = .ok ⟨.identity, p⟩ := by
      simp [toDecimal, TypedValue.literal, hkind, ifLiteral, bind, Except.bind, pure, Except.pure]
    rw [hrun]
    exact .done ((recodes_numeric rfl rfl _).mpr (.inl hk)) hp
  | bytes =>
    have hrun : toDecimal.run (.literal source p) fixed span =
        refuse source fixed "byte sequences have no numeric value" span := by
      simp [toDecimal, TypedValue.literal, hkind]
    rw [hrun]
    refine .refused ?_
    rw [recodes_bytes (by simp [isNumeric, hkind])]
    simp [Reinterprets, hkind, hk]

theorem unsignedBytes_eq_ok {length : ℤ} (hlength : 0 ≤ length) (hn : 0 ≤ n)
    (hlt : n.toNat < BigEndian.count length.toNat) :
    unsignedBytes length n = .ok (BigEndian.encode length.toNat n.toNat) := by
  simp only [unsignedBytes]
  rw [if_neg (by omega), if_neg (by omega), if_neg (by omega)]

theorem toBytes_recoded (hs : source ∈ table) (ht : target ∈ table)
    (hk : target.kind = .bytes) (hp : source.Admits p) :
    Recoded source target p span (toBytes.run (.literal source p) target span) := by
  have hrecodes : source.Recodes target p.datum ↔ source.Reinterprets target :=
    recodes_bytes (by simp [isNumeric, hk]) _
  cases hkind : source.kind with
  | bytes =>
    have hlength : source.Recodes target p.datum ↔ source.byteLength = target.byteLength := by
      simp [hrecodes, Reinterprets, hkind, hk]
    obtain ⟨bs, hbs, hbytes⟩ := bytes_of_holds hkind hp.holds
    obtain rfl := Payload.eq_bytes_of_datum hbs
    by_cases heq : source.byteLength = target.byteLength
    · have hrun : toBytes.run (.literal source (.bytes bs)) target span =
          .ok ⟨.identity, .bytes bs⟩ := by
        simp [toBytes, TypedValue.literal, hkind, heq, ifLiteral, bind, Except.bind, pure,
          Except.pure]
      rw [hrun]
      exact .done (hlength.mpr heq) (admits_bytes ht hk (hbytes.trans heq))
    · have hrun : toBytes.run (.literal source (.bytes bs)) target span =
          refuse source target ("length " ++ toString source.byteLength ++ " differs from " ++
            toString target.byteLength) span := by
        simp [toBytes, TypedValue.literal, hkind, heq, refuseLength_eq hs ht]
      rw [hrun]
      exact .refused (hlength.not.mpr heq)
  | uint =>
    have hwidth : source.Recodes target p.datum ↔ source.bits = target.bits := by
      rw [hrecodes, bits_eq target ht hk]
      simp [Reinterprets, hkind, hk]
    obtain ⟨n, rfl⟩ := hp.integer (.inl hkind)
    by_cases hbits : source.bits = target.bits
    · have hholds : source.Holds (.number n) := hp.holds
      obtain ⟨hnonneg, hlt⟩ :=
        toNat_lt_count (v := .literal source (.int n)) hs ht hkind hk hbits hholds
      have hlength := byteLength_nonneg target ht
      have hencode := unsignedBytes_eq_ok hlength hnonneg hlt
      have hrun : toBytes.run (.literal source (.int n)) target span = .ok ⟨.intToBytes,
          .bytes (BigEndian.encode target.byteLength.toNat n.toNat)⟩ := by
        simp [toBytes, TypedValue.literal, hkind, hbits, ifLiteral, Payload.toInt, hencode, bind,
          Except.bind, pure, Except.pure]
      rw [hrun]
      refine .done (hwidth.mpr hbits) (admits_bytes ht hk ?_)
      rw [BigEndian.length_encode]
      exact Int.toNat_of_nonneg hlength
    · have hrun : toBytes.run (.literal source (.int n)) target span =
          refuse source target "integer width must match the byte length" span := by
        simp [toBytes, TypedValue.literal, hkind, hbits]
      rw [hrun]
      exact .refused (hwidth.not.mpr hbits)
  | int =>
    have hrun : toBytes.run (.literal source p) target span = refuse source target
        "signed integers must be converted to an unsigned type first" span := by
      simp [toBytes, TypedValue.literal, hkind]
    rw [hrun]
    exact .refused (by simp [hrecodes, Reinterprets, hkind])
  | decimal =>
    have hrun : toBytes.run (.literal source p) target span = refuse source target
        "fixed-point values cannot be reinterpreted as bytes" span := by
      simp [toBytes, TypedValue.literal, hkind]
    rw [hrun]
    exact .refused (by simp [hrecodes, Reinterprets, hkind])

theorem forKind_recoded (hs : source ∈ table) (ht : target ∈ table) (hp : source.Admits p)
    (hfits : source.Fits target p.datum) (span : Span) :
    Recoded source target p span
      ((forKind target.kind).run (.literal source p) target span) := by
  cases hk : target.kind with
  | uint => exact toInteger_recoded hs ht (.inl hk) hp hfits
  | int => exact toInteger_recoded hs ht (.inr hk) hp hfits
  | decimal => exact toDecimal_recoded hs ht hk hp hfits
  | bytes => exact toBytes_recoded hs ht hk hp

end Procedure

theorem requireLegal_of_not_admits (hs : source ∈ table) (hp : ¬ source.Admits p) (span : Span) :
    (TypedValue.literal source p).requireLegal span =
      Fault.blame span (.literalOutOfRange p source.name) := by
  obtain ⟨legal, hlegal⟩ := literalInRange_defined hs p
  have hfalse : legal = false := by
    rw [← Bool.not_eq_true]
    rintro rfl
    exact hp ((literalInRange_iff hs).mp hlegal)
  simp [TypedValue.requireLegal, TypedValue.literal, requireLegal, hlegal, hfalse, Fault.require,
    bind, Except.bind]

theorem requireLegal_literal_iff (hs : source ∈ table) :
    (TypedValue.literal source p).requireLegal span = .ok () ↔ source.Admits p := by
  rw [TypedValue.requireLegal_eq_ok, ← literalInRange_iff hs]
  exact forall_prop_of_true rfl

namespace ConversionEntry

variable {procedure : Procedure} {entry : ConversionEntry} {v : TypedValue} {fault : Fault}

theorem requireSource_of_not_fits (ht : target ∈ table) (h : ¬ source.Fits target p.datum) :
    requireSource ⟨target, procedure⟩ (.literal source p) span =
      Fault.blame span (.literalOutOfRange p target.name) := by
  simp only [Fits, not_forall] at h
  obtain ⟨hsource, htarget, q, hq, hrange⟩ := h
  have hc : target.layoutBounds.contains p = false := by
    rwa [← Bool.not_eq_true, contains_of_number ht hq]
  simp [requireSource, TypedValue.literal, hsource, htarget, requireInBounds, bounds_eq ht, hc,
    Fault.require, bind, Except.bind]

theorem requireSource_literal_iff (ht : target ∈ table) (hp : source.Admits p) :
    requireSource ⟨target, procedure⟩ (.literal source p) span = .ok () ↔
      source.Fits target p.datum := by
  constructor
  · intro h
    by_contra hfits
    rw [requireSource_of_not_fits ht hfits] at h
    exact Fault.blame_ne_ok h
  · intro hfits
    refine requireSource_eq_ok.mpr fun _ hsource htarget => ⟨_, bounds_eq ht, ?_⟩
    obtain ⟨q, hq⟩ := number_of_holds (isNumeric_iff.mp hsource) hp.holds
    exact (contains_of_number ht hq).mpr (hfits hsource htarget q hq)

theorem plan_of_illegal (h : v.requireLegal span = .error fault) :
    entry.plan v span = .error fault := by
  simp only [plan]
  rw [h]
  rfl

theorem plan_of_outside (hlegal : v.requireLegal span = .ok ())
    (h : entry.requireSource v span = .error fault) : entry.plan v span = .error fault := by
  simp only [plan]
  rw [hlegal, h]
  rfl

theorem plan_of_failed (hlegal : v.requireLegal span = .ok ())
    (hsource : entry.requireSource v span = .ok ())
    (h : entry.procedure.run v entry.target span = .error fault) :
    entry.plan v span = .error fault := by
  simp only [plan]
  rw [hlegal, hsource, h]
  rfl

end ConversionEntry

namespace Registry

/-- How the conversion of a bare literal ends, in the order of the checks. -/
inductive Ends (source target : ScalarType) (p : Payload) (span : Span) :
    Except Fault TypedValue → Prop
  | unwritten :
      ¬ p.HasText → Ends source target p span (.error (.misuse .longInteger))
  | illegal :
      p.HasText → ¬ source.Admits p → Ends source target p span
        (.error (.source ⟨.literalOutOfRange p source.name, span⟩))
  | outside :
      source.Admits p → ¬ source.Fits target p.datum → Ends source target p span
        (.error (.source ⟨.literalOutOfRange p target.name, span⟩))
  | refused {reason : String} {construct : Option String} :
      source.Admits p → source.Fits target p.datum → ¬ source.Recodes target p.datum →
      Ends source target p span (.error (.source ⟨.invalidConversion reason construct, span⟩))
  | converted {payload : Payload} {dest : ValueId} :
      source.Admits p → source.Fits target p.datum → source.Recodes target p.datum →
      target.Admits payload →
      (⟨source, p.datum⟩ : Cell).recast? target = some payload.datum →
      Ends source target p span (.ok ⟨target, payload, true, some dest⟩)

theorem ends_of_fits (hs : source ∈ table) (ht : target ∈ table) (hp : source.Admits p)
    (hfits : source.Fits target p.datum) (span : Span) (b : Buffer) :
    Ends source target p span
      ((Registry.default.convert (.literal source p) target.name span).run b).1 := by
  have hentry := resolve_default_mem ht span
  have hlegal : (TypedValue.literal source p).requireLegal span = .ok () :=
    (requireLegal_literal_iff hs).mpr hp
  have hsource : ConversionEntry.requireSource ⟨target, usual target⟩ (.literal source p) span =
      .ok () := (ConversionEntry.requireSource_literal_iff ht hp).mpr hfits
  have hrecoded := Procedure.forKind_recoded hs ht hp hfits span
  generalize hrun : (Procedure.forKind target.kind).run (.literal source p) target span = out
    at hrecoded
  cases hrecoded with
  | @done mode payload hrecodes hadmits =>
    have hplan : ConversionEntry.plan ⟨target, usual target⟩ (.literal source p) span =
        .ok ⟨mode, payload⟩ := by
      refine ConversionEntry.plan_eq_ok.mpr ⟨TypedValue.requireLegal_eq_ok.mp hlegal,
        ConversionEntry.requireSource_eq_ok.mp hsource, hrun, ?_⟩
      exact fun _ => (literalInRange_iff ht).mpr hadmits
    obtain ⟨w, b', hconvert, he⟩ := convert_of_planned hentry hplan ⟨_, bounds_eq ht⟩ b
    obtain ⟨dest, -, -, rfl, -, -⟩ := he.clamped
    obtain ⟨e, hrecasts⟩ :=
      Procedure.forKind_recasts (v := .literal source p) hs ht hp.holds hrun
    obtain rfl : payload.datum = e := hrecasts.literal rfl rfl
    rw [hconvert]
    exact .converted hp hfits hrecodes hadmits hrecasts.recast
  | refused hrecodes =>
    have hplan : ConversionEntry.plan ⟨target, usual target⟩ (.literal source p) span =
        .error _ := ConversionEntry.plan_of_failed hlegal hsource hrun
    rw [convert_of_refused hentry hplan]
    exact .refused hp hfits hrecodes

theorem literal_ends (hs : source ∈ table) (ht : target ∈ table) (p : Payload) (span : Span)
    (b : Buffer) :
    Ends source target p span
      ((Registry.default.convert (.literal source p) target.name span).run b).1 := by
  have hentry := resolve_default_mem ht span
  by_cases hp : source.Admits p
  · by_cases hfits : source.Fits target p.datum
    · exact ends_of_fits hs ht hp hfits span b
    · have hworded : (Cause.literalOutOfRange p target.name).Worded :=
        (Cause.worded_of_shown rfl).mpr (hp.hasText hs)
      have houtside : ConversionEntry.requireSource ⟨target, usual target⟩ (.literal source p)
          span = .error (.source ⟨.literalOutOfRange p target.name, span⟩) :=
        (ConversionEntry.requireSource_of_not_fits ht hfits).trans (Fault.blame_of_worded hworded)
      rw [convert_of_refused hentry
        (ConversionEntry.plan_of_outside ((requireLegal_literal_iff hs).mpr hp) houtside)]
      exact .outside hp hfits
  · have hillegal := requireLegal_of_not_admits hs hp span
    by_cases htext : p.HasText
    · rw [Fault.blame_of_worded ((Cause.worded_of_shown rfl).mpr htext)] at hillegal
      rw [convert_of_refused hentry (ConversionEntry.plan_of_illegal hillegal)]
      exact .illegal htext hp
    · rw [Fault.blame_of_not_worded ((Cause.worded_of_shown rfl).not.mpr htext)] at hillegal
      rw [convert_of_refused hentry (ConversionEntry.plan_of_illegal hillegal)]
      exact .unwritten htext

namespace Ends

variable {out : Except Fault TypedValue}

theorem unwritten_iff (hs : source ∈ table) (h : Ends source target p span out) :
    out = .error (.misuse .longInteger) ↔ ¬ p.HasText := by
  cases h with
  | unwritten htext => exact iff_of_true rfl htext
  | illegal htext _ => exact iff_of_false (by simp) (not_not.mpr htext)
  | outside hp _ | refused hp _ _ | converted hp _ _ _ _ =>
    exact iff_of_false (by simp) (not_not.mpr (hp.hasText hs))

theorem illegal_iff (hs : source ∈ table) (ht : target ∈ table)
    (h : Ends source target p span out) :
    out = .error (.source ⟨.literalOutOfRange p source.name, span⟩) ↔
      p.HasText ∧ ¬ source.Admits p := by
  cases h with
  | unwritten htext => exact iff_of_false (by simp) fun h => htext h.1
  | illegal htext hp => exact iff_of_true rfl ⟨htext, hp⟩
  | outside hp hfits =>
    refine iff_of_false ?_ fun h => h.2 hp
    intro h
    -- one name would be one type, and a legal literal fits its own type
    have hname : target.name = source.name := by simpa using h
    obtain rfl := eq_of_name_eq ht hs hname
    exact hfits (fits_self hp)
  | refused hp _ _ | converted hp _ _ _ _ => exact iff_of_false (by simp) fun h => h.2 hp

theorem outside_iff (hs : source ∈ table) (h : Ends source target p span out)
    (hp : source.Admits p) :
    out = .error (.source ⟨.literalOutOfRange p target.name, span⟩) ↔
      ¬ source.Fits target p.datum := by
  cases h with
  | unwritten htext => exact absurd (hp.hasText hs) htext
  | illegal _ hillegal => exact absurd hp hillegal
  | outside _ hfits => exact iff_of_true rfl hfits
  | refused _ hfits _ | converted _ hfits _ _ _ => exact iff_of_false (by simp) (not_not.mpr hfits)

theorem refused_iff (hs : source ∈ table) (h : Ends source target p span out) :
    (∃ reason construct, out = .error (.source ⟨.invalidConversion reason construct, span⟩)) ↔
      source.Admits p ∧ source.Fits target p.datum ∧ ¬ source.Recodes target p.datum := by
  cases h with
  | unwritten htext => exact iff_of_false (by simp) fun h => htext (h.1.hasText hs)
  | illegal _ hp => exact iff_of_false (by simp) fun h => hp h.1
  | outside _ hfits => exact iff_of_false (by simp) fun h => hfits h.2.1
  | refused hp hfits hrecodes => exact iff_of_true ⟨_, _, rfl⟩ ⟨hp, hfits, hrecodes⟩
  | converted _ _ hrecodes _ _ => exact iff_of_false (by simp) fun h => h.2.2 hrecodes

theorem converted_iff (hs : source ∈ table) (h : Ends source target p span out) :
    (∃ w, out = .ok w) ↔
      source.Admits p ∧ source.Fits target p.datum ∧ source.Recodes target p.datum := by
  cases h with
  | unwritten htext => exact iff_of_false (by simp) fun h => htext (h.1.hasText hs)
  | illegal _ hp => exact iff_of_false (by simp) fun h => hp h.1
  | outside _ hfits => exact iff_of_false (by simp) fun h => hfits h.2.1
  | refused _ _ hrecodes => exact iff_of_false (by simp) fun h => hrecodes h.2.2
  | converted hp hfits hrecodes _ _ => exact iff_of_true ⟨_, rfl⟩ ⟨hp, hfits, hrecodes⟩

end Ends

theorem requireResult_of_run (hs : source ∈ table) (ht : target ∈ table) {made : Converted}
    (hlegal : (TypedValue.literal source p).requireLegal span = .ok ())
    (hsource : ConversionEntry.requireSource ⟨target, usual target⟩ (.literal source p) span =
      .ok ())
    (hrun : (usual target).run (.literal source p) target span = .ok made) :
    ConversionEntry.requireResult ⟨target, usual target⟩ (.literal source p) made span =
      .ok () := by
  have hp := (requireLegal_literal_iff hs).mp hlegal
  have hfits := (ConversionEntry.requireSource_literal_iff ht hp).mp hsource
  have hrecoded := Procedure.forKind_recoded hs ht hp hfits span
  rw [usual] at hrun
  rw [hrun] at hrecoded
  rw [ConversionEntry.requireResult_eq_ok]
  intro _
  cases hrecoded with
  | done _ hadmits => exact (literalInRange_iff ht).mpr hadmits

/-- What converting a bare literal comes to, and that nothing else can come of it. An integer
without a text is legal for no type, and it is the message about it that cannot be written. -/
structure ConvertsLiteral (source target : ScalarType) (p : Payload) (span : Span)
    (out : Except Fault TypedValue) : Prop where
  legal : source.literalInRange p = .ok true ↔ source.Admits p
  unwritten : out = .error (.misuse .longInteger) ↔ ¬ p.HasText
  illegal : out = .error (.source ⟨.literalOutOfRange p source.name, span⟩) ↔
    p.HasText ∧ ¬ source.Admits p
  outside : source.Admits p →
    (out = .error (.source ⟨.literalOutOfRange p target.name, span⟩) ↔
      ¬ source.Fits target p.datum)
  refused : (∃ reason construct,
      out = .error (.source ⟨.invalidConversion reason construct, span⟩)) ↔
    source.Admits p ∧ source.Fits target p.datum ∧ ¬ source.Recodes target p.datum
  converted : (∃ w, out = .ok w) ↔
    source.Admits p ∧ source.Fits target p.datum ∧ source.Recodes target p.datum
  result : ∀ w, out = .ok w → w.ty = target ∧ w.isLiteral = true ∧ target.Admits w.value ∧
    (⟨source, p.datum⟩ : Cell).recast? target = some w.value.datum
  number : source.isNumeric = true → target.isNumeric = true → ∀ w, out = .ok w →
    w.value.datum = p.datum
  only : ∀ e, out = .error e → p.HasText → ∃ cause, e = .source ⟨cause, span⟩ ∧
    (cause = .literalOutOfRange p source.name ∨ cause = .literalOutOfRange p target.name ∨
      ∃ reason construct, cause = .invalidConversion reason construct)
  settled : ∀ made, (TypedValue.literal source p).requireLegal span = .ok () →
    ConversionEntry.requireSource ⟨target, usual target⟩ (.literal source p) span = .ok () →
    (usual target).run (.literal source p) target span = .ok made →
    ConversionEntry.requireResult ⟨target, usual target⟩ (.literal source p) made span = .ok ()

theorem converts_literals (hs : source ∈ table) (ht : target ∈ table) (p : Payload)
    (span : Span) (b : Buffer) :
    ConvertsLiteral source target p span
      ((Registry.default.convert (.literal source p) target.name span).run b).1 := by
  have hends := literal_ends hs ht p span b
  generalize ((Registry.default.convert (.literal source p) target.name span).run b).1 = out
    at hends ⊢
  constructor
  case legal => exact literalInRange_iff hs
  case unwritten => exact hends.unwritten_iff hs
  case illegal => exact hends.illegal_iff hs ht
  case outside => exact hends.outside_iff hs
  case refused => exact hends.refused_iff hs
  case converted => exact hends.converted_iff hs
  case result =>
    rintro w rfl
    cases hends with
    | converted _ _ _ hadmits hrecast => exact ⟨rfl, rfl, hadmits, hrecast⟩
  case number =>
    rintro hsource htarget w rfl
    cases hends with
    | converted _ _ hrecodes _ hrecast => exact eq_of_recast hsource htarget hrecodes hrecast
  case only =>
    rintro e rfl htext
    cases hends with
    | unwritten hunwritten => exact absurd htext hunwritten
    | illegal _ _ => exact ⟨_, rfl, .inl rfl⟩
    | outside _ _ => exact ⟨_, rfl, .inr (.inl rfl)⟩
    | refused _ _ _ => exact ⟨_, rfl, .inr (.inr ⟨_, _, rfl⟩)⟩
  case settled =>
    exact fun made hlegal hsource hrun => requireResult_of_run hs ht hlegal hsource hrun

theorem converts_literals_halves :
    fixed ∈ table ∧ uint 8 ∈ table ∧
      ((Registry.default.convert (.literal fixed (.decimal (.finite ⟨false, 2555, -1⟩))) "uint8"
        {}).run { name := "f" }).1 =
          .error (.source ⟨.literalOutOfRange (.decimal (.finite ⟨false, 2555, -1⟩)) "uint8", {}⟩) ∧
      ∃ reason construct,
        ((Registry.default.convert (.literal fixed (.decimal (.finite ⟨false, 2545, -1⟩))) "uint8"
          {}).run { name := "f" }).1 =
            .error (.source ⟨.invalidConversion reason construct, {}⟩) := by
  have hs : fixed ∈ table := by decide
  have ht : uint 8 ∈ table := by decide
  refine ⟨hs, ht, ?_, ?_⟩
  · have h := converts_literals hs ht (.decimal (.finite ⟨false, 2555, -1⟩)) {} { name := "f" }
    refine (h.outside (h.legal.mp (by decide +kernel))).mpr fun hfits => ?_
    exact absurd (hfits rfl rfl _ rfl) (by decide +kernel)
  · have h := converts_literals hs ht (.decimal (.finite ⟨false, 2545, -1⟩)) {} { name := "f" }
    refine h.refused.mpr ⟨h.legal.mp (by decide +kernel), ?_, ?_⟩
    · intro _ _ q hq
      obtain rfl := Datum.number.inj hq
      decide +kernel
    · rw [recodes_numeric rfl rfl]
      rintro (hk | ⟨n, hn⟩)
      · cases hk
      · exact absurd ((Scaled.hasFraction_eq_false _).mpr ⟨n, Datum.number.inj hn⟩) (by decide)

/-- The least integer without a text is out of range for every type, and the conversion cannot
say so. -/
theorem converts_literals_unwritten :
    (uint 8).literalInRange (.int (10 ^ textLimit)) = .ok false ∧
      ((Registry.default.convert (.literal (uint 8) (.int (10 ^ textLimit))) "uint8" {}).run
        { name := "f" }).1 = .error (.misuse .longInteger) := by
  have hs : uint 8 ∈ table := by decide
  have htext : ¬ (Payload.int (10 ^ textLimit)).HasText := by
    simp [Payload.HasText, Int.natAbs_pow]
  constructor
  · obtain ⟨legal, hlegal⟩ := literalInRange_defined hs (.int (10 ^ textLimit))
    cases legal with
    | false => exact hlegal
    | true => exact absurd (((literalInRange_iff hs).mp hlegal).hasText hs) htext
  · exact ((literal_ends hs hs _ {} { name := "f" }).unwritten_iff hs).mpr htext

end Registry

end ContractGuard
