import ContractGuard.Proofs.Arithmetic.Folding
import ContractGuard.Proofs.Code.Definition
import Mathlib.Logic.Function.Basic

/-!
# Running safety code

A machine with one register for each id runs the nodes in order. It is stuck when a node
finds no value or one of the wrong kind, which is told apart from a check that aborts.
-/

namespace ContractGuard

inductive Halt where
  | returned (value : Option Datum)
  | aborted (code : AbortCode)
  | stuck
deriving DecidableEq

abbrev Registers := ValueId → Option Datum

abbrev Arguments := String → Datum

namespace Registers

def read (regs : Registers) (id : ValueId) : Except Halt Datum :=
  match regs id with
  | some d => .ok d
  | none => .error .stuck

def readNumber (regs : Registers) (id : ValueId) : Except Halt ℚ :=
  match regs id with
  | some (.number q) => .ok q
  | _ => .error .stuck

def write (regs : Registers) (id : ValueId) (d : Datum) : Registers :=
  Function.update regs id (some d)

def Keeps (regs regs' : Registers) : Prop := ∀ id d, regs id = some d → regs' id = some d

end Registers

/-- What a conversion makes of a value; a mode that does not apply has no result. -/
def ConvertMode.apply (mode : ConvertMode) (target : ScalarType) (d : Datum) : Option Datum :=
  match mode, d with
  | .identity, d | .extend, d | .truncate, d => some d
  | .toFixed, .number q => some (.number q)
  | .fromFixed, .number q => some (.number (whole q))
  | .bytesToInt, .bytes bs =>
    some (.number (if target.signed then BigEndian.decodeSigned bs else BigEndian.decode bs : ℤ))
  | .intToBytes, .number q =>
    let n := (whole q).toNat
    if q = n ∧ n < BigEndian.count target.byteLength.toNat then
      some (.bytes (BigEndian.encode target.byteLength.toNat n))
    else none
  | _, _ => none

def Node.within (lower upper : Payload) (d : Datum) : Except Halt Bool :=
  match d.reading?, lower.datum.reading?, upper.datum.reading? with
  | some q, some lo, some hi => .ok (decide (lo ≤ q ∧ q ≤ hi))
  | _, _, _ => .error .stuck

def Node.step (args : Arguments) (regs : Registers) : Node → Except Halt Registers
  | .const dest _ value => .ok (regs.write dest value.datum)
  | .loadParam dest name _ => .ok (regs.write dest (args name))
  | .convert dest src _ toTy mode => do
    match mode.apply toTy (← regs.read src) with
    | some d => .ok (regs.write dest d)
    | none => .error .stuck
  | .binary dest op left right ty => do
    let x ← regs.readNumber left
    let y ← regs.readNumber right
    if op = .div ∧ y = 0 then .error .stuck
    else .ok (regs.write dest (.number (op.meaning ty x y)))
  | .clamp dest src lower upper _ abort => do
    let d ← regs.read src
    if ← Node.within lower upper d then .ok (regs.write dest d) else .error (.aborted abort)
  | .zeroCheck src _ abort => do
    if (← regs.readNumber src) = 0 then .error (.aborted abort) else .ok regs
  | .ret none => .error (.returned none)
  | .ret (some id) => do .error (.returned (some (← regs.read id)))
  | .bareCheck => .error .stuck
  | .bare => .error .stuck

def run (args : Arguments) (regs : Registers) (code : List Node) : Except Halt Registers :=
  code.foldlM (fun regs node => node.step args regs) regs

/-- A function starts with empty registers and must not run off its end. -/
def CompiledFunction.outcome (f : CompiledFunction) (args : Arguments) : Halt :=
  match run args (fun _ => none) f.nodes with
  | .ok _ => .stuck
  | .error halt => halt

section

variable {args : Arguments} {regs regs' : Registers} {code more : List Node} {halt : Halt}

theorem run_cons (node : Node) :
    run args regs (node :: code) = (node.step args regs).bind fun regs' => run args regs' code := by
  simp only [run]
  rw [List.foldlM_cons]
  rfl

theorem run_append :
    run args regs (code ++ more) = (run args regs code).bind fun regs' => run args regs' more := by
  unfold run
  rw [List.foldlM_append]
  rfl

theorem run_append_of_ok (h : run args regs code = .ok regs') :
    run args regs (code ++ more) = run args regs' more := by
  rw [run_append, h]
  rfl

theorem run_append_of_error (h : run args regs code = .error halt) :
    run args regs (code ++ more) = .error halt := by
  rw [run_append, h]
  rfl

theorem run_cons_of_ok {node : Node} (h : node.step args regs = .ok regs') :
    run args regs (node :: code) = run args regs' code := by
  rw [run_cons, h]
  rfl

theorem run_cons_of_error {node : Node} (h : node.step args regs = .error halt) :
    run args regs (node :: code) = .error halt := by
  rw [run_cons, h]
  rfl

theorem Node.step_eq_ok {node : Node} (h : node.step args regs = .ok regs') :
    regs' = regs ∨ ∃ id d, node.dest? = some id ∧ regs' = regs.write id d := by
  cases node with
  | const dest ty value =>
    cases h
    exact Or.inr ⟨dest, _, rfl, rfl⟩
  | loadParam dest name ty =>
    cases h
    exact Or.inr ⟨dest, _, rfl, rfl⟩
  | convert dest src fromTy toTy mode =>
    obtain ⟨d, _, h⟩ := bind_eq_ok.mp h
    cases ha : mode.apply toTy d with
    | none => simp [ha] at h
    | some e => exact Or.inr ⟨dest, e, rfl, by simpa [ha] using h.symm⟩
  | binary dest op left right ty =>
    obtain ⟨x, _, h⟩ := bind_eq_ok.mp h
    obtain ⟨y, _, h⟩ := bind_eq_ok.mp h
    split_ifs at h
    exact Or.inr ⟨dest, _, rfl, by simpa using h.symm⟩
  | clamp dest src lower upper ty abort =>
    obtain ⟨d, _, h⟩ := bind_eq_ok.mp h
    obtain ⟨inside, _, h⟩ := bind_eq_ok.mp h
    split_ifs at h
    exact Or.inr ⟨dest, d, rfl, by simpa using h.symm⟩
  | zeroCheck src ty abort =>
    obtain ⟨q, _, h⟩ := bind_eq_ok.mp h
    split_ifs at h
    exact Or.inl (by simpa using h.symm)
  | ret value =>
    cases value with
    | none => cases h
    | some id =>
      obtain ⟨d, _, h⟩ := bind_eq_ok.mp h
      cases h
  | bareCheck => cases h
  | bare => cases h

theorem Node.step_frame {node : Node} (h : node.step args regs = .ok regs') {id : ValueId}
    (hid : node.dest? ≠ some id) : regs' id = regs id := by
  rcases Node.step_eq_ok h with rfl | ⟨dest, d, hd, rfl⟩
  · rfl
  · have hne : id ≠ dest := by
      intro he
      exact hid (he ▸ hd)
    exact Function.update_of_ne hne _ _

theorem run_frame (h : run args regs code = .ok regs') {id : ValueId} (hid : id ∉ dests code) :
    regs' id = regs id := by
  induction code generalizing regs with
  | nil =>
    cases h
    rfl
  | cons node code ih =>
    rw [run_cons] at h
    cases hs : node.step args regs with
    | error halt => simp [hs, Except.bind] at h
    | ok next =>
      simp only [dests_cons, List.mem_append, not_or, Option.mem_toList] at hid
      have hrest : run args next code = .ok regs' := by simpa [hs, Except.bind] using h
      exact (ih hrest hid.2).trans (Node.step_frame hs hid.1)

theorem mem_dests_of_run (h : run args (fun _ => none) code = .ok regs) {id : ValueId} {d : Datum}
    (hid : regs id = some d) : id ∈ dests code := by
  by_contra hn
  rw [run_frame h hn] at hid
  cases hid

theorem run_ne_ok_of_ret {value : Option ValueId} (h : code.getLast? = some (.ret value)) :
    run args regs code ≠ .ok regs' := by
  intro hok
  obtain ⟨before, rfl⟩ := List.getLast?_eq_some_iff.mp h
  rw [run_append] at hok
  obtain ⟨next, _, hret⟩ := bind_eq_ok.mp hok
  cases value with
  | none => cases hret
  | some id =>
    rw [run_cons] at hret
    obtain ⟨_, hstep, _⟩ := bind_eq_ok.mp hret
    obtain ⟨_, _, hstep⟩ := bind_eq_ok.mp hstep
    cases hstep

end

end ContractGuard
