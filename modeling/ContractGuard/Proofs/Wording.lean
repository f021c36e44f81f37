import ContractGuard.Fault
import ContractGuard.Proofs.Decimal.Value

/-!
# What can be put into words

A message shows the value that it is about. Only an integer of too many digits has no text,
so a cause that shows none of these has its message, and raising it is a fault of the source.
-/

namespace ContractGuard

variable {α : Type} {n : ℤ} {p : Payload} {cause : Cause} {span : Span}

theorem integerText_of_lt (h : n.natAbs < 10 ^ textLimit) : integerText n = some (toString n) :=
  if_pos ((digitCount_le_iff (by decide)).mpr h)

theorem integerText_of_le (h : 10 ^ textLimit ≤ n.natAbs) : integerText n = none :=
  if_neg fun hcount => absurd ((digitCount_le_iff (by decide)).mp hcount) (not_lt.mpr h)

theorem lt_of_digits {k m : ℕ} (h : m < 10 ^ k) (hk : k ≤ textLimit) : m < 10 ^ textLimit :=
  h.trans_le (Nat.pow_le_pow_right (by decide) hk)

namespace Payload

def HasText : Payload → Prop
  | .int n => n.natAbs < 10 ^ textLimit
  | _ => True

instance : DecidablePred HasText
  | .int n => inferInstanceAs (Decidable (n.natAbs < 10 ^ textLimit))
  | .null | .bool _ | .decimal _ | .bytes _ | .text _ => .isTrue trivial

theorem plain_isSome : p.plain.isSome = true ↔ p.HasText := by
  cases p with
  | int n =>
    rcases lt_or_ge n.natAbs (10 ^ textLimit) with h | h
    · simp [plain, integerText_of_lt h, HasText, h]
    · simp [plain, integerText_of_le h, HasText, h]
  | bool b => cases b <;> simp [plain, HasText]
  | null | decimal _ | bytes _ | text _ => simp [plain, HasText]

theorem quoted_isSome : p.quoted.isSome = true ↔ p.HasText := by
  cases p with
  | int n => exact plain_isSome (p := .int n)
  | bool b => exact plain_isSome (p := .bool b)
  | null | decimal _ | bytes _ | text _ => simp [quoted, plain, HasText]

end Payload

/-- The value that the message shows, if it shows one. -/
def Cause.shown? : Cause → Option Payload
  | .literalOutOfRange value _ => some value
  | .overflowAtCompileTime _ _ result => some result
  | _ => none

def Cause.Worded (cause : Cause) : Prop := ∀ p, cause.shown? = some p → p.HasText

theorem Cause.worded_of_shown (h : cause.shown? = some p) : cause.Worded ↔ p.HasText := by
  simp [Worded, h]

theorem Cause.worded_of_none (h : cause.shown? = none) : cause.Worded := by
  simp [Worded, h]

theorem Cause.message_isSome : cause.message.isSome = true ↔ cause.Worded := by
  cases cause <;>
    simp [message, Worded, shown?, Payload.quoted_isSome, Payload.plain_isSome]

namespace Fault

@[simp] theorem blame_ne_ok {a : α} : blame span cause ≠ .ok a := by
  simp only [blame]
  split <;> simp

theorem blame_of_worded (h : cause.Worded) :
    (blame span cause : Except Fault α) = .error (.source ⟨cause, span⟩) := by
  obtain ⟨text, htext⟩ := Option.isSome_iff_exists.mp (Cause.message_isSome.mpr h)
  rw [blame, htext]

theorem blame_of_not_worded (h : ¬ cause.Worded) :
    (blame span cause : Except Fault α) = .error (.misuse .longInteger) := by
  rw [blame, Option.not_isSome_iff_eq_none.mp (Cause.message_isSome.not.mpr h)]

end Fault

end ContractGuard
