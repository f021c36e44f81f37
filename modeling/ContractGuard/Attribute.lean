import ContractGuard.Fault

/-!
# Function attributes

The attributes of a function come from a fixed vocabulary. Exactly one visibility
is required, and a constant function accepts no payment. The verdict depends only
on which attributes occur, except that the first unknown one is reported before
any other rule.
-/

namespace ContractGuard

inductive Attribute where
  | isPrivate
  | isPublic
  | constant
  | payable
deriving DecidableEq

namespace Attribute

def name : Attribute → String
  | isPrivate => "private"
  | isPublic => "public"
  | constant => "constant"
  | payable => "payable"

def all : List Attribute := [constant, payable, isPrivate, isPublic]

end Attribute

inductive RawAttribute where
  | text (s : String)
  | known (a : Attribute)
deriving DecidableEq

namespace RawAttribute

def shown : RawAttribute → String
  | text s => s
  | known a => a.name

/-- Marks in front and the case of letters do not matter. All names are ASCII and no
other letter has one of theirs as its lower case. -/
def resolve? : RawAttribute → Option Attribute
  | text s =>
    let plain := String.ofList ((s.toList.dropWhile (· = '@')).map Char.toLower)
    Attribute.all.find? (·.name = plain)
  | known a => some a

end RawAttribute

inductive ValidationState where
  | unvalidated
  | accepted
  | rejected
deriving DecidableEq

def ValidationState.name : ValidationState → String
  | unvalidated => "UNVALIDATED"
  | accepted => "ACCEPTED"
  | rejected => "REJECTED"

inductive RejectionReason where
  | unknownAttribute
  | missingVisibility
  | conflictingVisibility
  | payableConstantConflict
deriving DecidableEq

def RejectionReason.name : RejectionReason → String
  | unknownAttribute => "UNKNOWN_ATTRIBUTE"
  | missingVisibility => "MISSING_VISIBILITY"
  | conflictingVisibility => "CONFLICTING_VISIBILITY"
  | payableConstantConflict => "PAYABLE_CONSTANT_CONFLICT"

structure Verdict where
  state : ValidationState
  reason : Option RejectionReason := none
  detail : Option String := none
deriving DecidableEq

namespace Verdict

def accept : Verdict := { state := .accepted }

def reject (reason : RejectionReason) : Verdict := ⟨.rejected, some reason, none⟩

def rejectUnknown (written : String) : Verdict :=
  ⟨.rejected, some .unknownAttribute, some written⟩

def isAccepted (v : Verdict) : Bool := v.state = .accepted

def cause? (v : Verdict) (function : String) : Option Cause :=
  v.reason.map fun
    | .unknownAttribute =>
      .unknownAttribute function (match v.detail with | none | some "" => "?" | some d => d)
    | .missingVisibility => .missingVisibility function
    | .conflictingVisibility => .conflictingVisibility function
    | .payableConstantConflict => .payableConstantConflict function

/-- The source fault that the verdict stands for; without a reason there is none. -/
def toFault (v : Verdict) (function : String) (span : Span) : Except Misuse SourceFault :=
  match v.cause? function with
  | some cause => .ok ⟨cause, span⟩
  | none => .error (.noRejection v.state.name)

end Verdict

namespace Attribute

/-- The rules on a set of known attributes. -/
def judge (known : List Attribute) : Verdict :=
  let pub := known.contains isPublic
  let priv := known.contains isPrivate
  if !pub && !priv then .reject .missingVisibility
  else if pub && priv then .reject .conflictingVisibility
  else if known.contains payable && known.contains constant then
    .reject .payableConstantConflict
  else .accept

def validate (raw : List RawAttribute) : Verdict :=
  match raw.find? (·.resolve?.isNone) with
  | some odd => .rejectUnknown odd.shown
  | none => judge (raw.filterMap (·.resolve?))

def occurring (raw : List RawAttribute) : List Attribute :=
  all.filter (raw.filterMap (·.resolve?)).contains

end Attribute

end ContractGuard
