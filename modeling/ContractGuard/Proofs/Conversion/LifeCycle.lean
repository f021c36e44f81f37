import ContractGuard.Conversion.Registry
import ContractGuard.Proofs.Scalar.Datum
import ContractGuard.Proofs.Wording
import Mathlib.Data.List.Basic
import Mathlib.Data.String.Basic

/-!
# The life of a registry

A fresh registry is sent any requests, of which some may fail. What it is at any time
depends only on the registrations that succeeded so far: while it is open they are what is
pending, and once it is closed they are its entries. It closes exactly when they cover the
table and nothing else, and from then on it only answers look-ups.
-/

namespace ContractGuard

inductive Request where
  | register (name : String) (procedure : Procedure)
  | close
  | resolve (name : String) (span : Span)

def Request.serve : Request → Registering (Option ConversionEntry)
  | .register name procedure => do
    Registry.register name procedure
    return none
  | .close => do
    Registry.close
    return none
  | .resolve name span => return some (← Registry.lookUp name span)

namespace Registry

/-- What the steps of the request left behind, whether they failed or not. -/
def after (r : Registry) (q : Request) : Registry := (q.serve.run r).2

def run (r : Registry) (qs : List Request) : Registry := qs.foldl after r

def registration? (r : Registry) : Request → Option (String × Procedure)
  | .register name procedure =>
    match ((register name procedure).run r).1 with
    | .ok () => some (name, procedure)
    | .error _ => none
  | _ => none

/-- The registrations that succeed in a run, in their order. -/
def registrations (r : Registry) : List Request → List (String × Procedure)
  | [] => []
  | q :: qs => (r.registration? q).toList ++ (r.after q).registrations qs

def tableNames : List String := ScalarType.table.map (·.name)

abbrev names (log : List (String × Procedure)) : List String := log.map Prod.fst

variable {r r' : Registry} {log : List (String × Procedure)} {name : String} {p : Procedure}
  {q : Request} {ty : ScalarType}

theorem isName_iff : ScalarType.isName name = true ↔ name ∈ tableNames := by
  simp [ScalarType.isName, ScalarType.find?, tableNames, List.find?_isSome]

theorem lookup_isSome_iff : (log.lookup name).isSome = true ↔ name ∈ names log := by
  simp [List.lookup_isSome_iff]

theorem lookup_isNone_iff : (log.lookup name).isNone = true ↔ name ∉ names log := by
  rw [← lookup_isSome_iff, Option.isNone_iff_eq_none, Option.not_isSome_iff_eq_none]

theorem lookup_of_mem (hnodup : (names log).Nodup) (h : (name, p) ∈ log) :
    log.lookup name = some p := by
  obtain ⟨before, rest, rfl⟩ := List.append_of_mem h
  refine List.lookup_eq_some_iff.mpr ⟨before, rest, rfl, ?_⟩
  intro entry hentry
  simp only [List.map_append, List.map_cons] at hnodup
  have hne := (List.nodup_append.mp hnodup).2.2 entry.1 (List.mem_map_of_mem hentry) name
    List.mem_cons_self
  simpa using hne.symm

theorem missing_eq (log : List (String × Procedure)) :
    missing log = tableNames.filter (· ∉ names log) := by
  refine List.filter_congr fun name _ => ?_
  rw [Bool.eq_iff_iff, decide_eq_true_iff]
  exact lookup_isNone_iff

theorem missing_eq_nil_iff : missing log = [] ↔ ∀ name ∈ tableNames, name ∈ names log := by
  simp [missing_eq, List.filter_eq_nil_iff]

theorem unknown_perm (log : List (String × Procedure)) :
    (unknown log).Perm ((names log).filter (· ∉ tableNames)) := by
  refine (List.mergeSort_perm _ _).trans (List.Perm.of_eq ?_)
  refine List.filter_congr fun name _ => ?_
  rw [Bool.eq_iff_iff, decide_eq_true_iff, ← isName_iff]
  simp

theorem unknown_sorted (log : List (String × Procedure)) : (unknown log).Pairwise (· ≤ ·) := by
  have hsorted : (unknown log).Pairwise fun a b => decide (a ≤ b) = true :=
    List.pairwise_mergeSort (fun a b c => by simpa using String.le_trans)
      (fun a b => by simpa using String.le_total a b) _
  simpa using hsorted

theorem unknown_eq_nil_iff : unknown log = [] ↔ ∀ name ∈ names log, name ∈ tableNames := by
  rw [← List.length_eq_zero_iff, (unknown_perm log).length_eq, List.length_eq_zero_iff,
    List.filter_eq_nil_iff]
  simp

def Covers (log : List (String × Procedure)) : Prop :=
  ∀ name, name ∈ names log ↔ name ∈ tableNames

theorem covers_iff : Covers log ↔ missing log = [] ∧ unknown log = [] := by
  rw [missing_eq_nil_iff, unknown_eq_nil_iff]
  exact ⟨fun h => ⟨fun name => (h name).mpr, fun name => (h name).mp⟩,
    fun ⟨hmissing, hunknown⟩ name => ⟨hunknown name, hmissing name⟩⟩

theorem register_opened (log : List (String × Procedure)) (name : String) (p : Procedure) :
    (register name p).run (opened log) =
      if name ∈ names log then
        (.error (.configuration (.duplicateRegistration name)), opened log)
      else (.ok (), opened (log ++ [(name, p)])) := by
  simp only [← lookup_isSome_iff]
  unfold register
  change ExceptT.run (if _ then _ else _ : Registering Unit) (opened log) = _
  cases (log.lookup name).isSome <;> rfl

theorem register_closed (entries : List ConversionEntry) (name : String) (p : Procedure) :
    (register name p).run (closed entries) =
      (.error (.configuration (.registryClosed name)), closed entries) := rfl

theorem close_opened (log : List (String × Procedure)) :
    close.run (opened log) =
      if missing log = [] ∧ unknown log = [] then (.ok (), closed (entriesOf log))
      else (.error (.configuration (.incompleteRegistry (missing log) (unknown log))),
        opened log) := by
  simp only [← List.isEmpty_iff]
  unfold close
  change ExceptT.run (if _ then _ else _ : Registering Unit) (opened log) = _
  cases (missing log).isEmpty <;> cases (unknown log).isEmpty <;> rfl

theorem close_closed (entries : List ConversionEntry) :
    close.run (closed entries) = (.ok (), closed entries) := rfl

theorem run_bind_pure {α β : Type} (x : Registering α) (f : α → β) (r : Registry) :
    (x >>= fun a => pure (f a)).run r = (((x.run r).1.map f), (x.run r).2) := by
  change (ExceptT.bindCont (fun a => pure (f a)) (x.run r).1 :
    StateM Registry (Except Fault β)).run (x.run r).2 = _
  cases (x.run r).1 <;> rfl

theorem bind_pure_eq_error {α β : Type} {x : Registering α} {f : α → β} {r : Registry} {e : Fault} :
    ((x >>= fun a => pure (f a)).run r).1 = .error e ↔ (x.run r).1 = .error e := by
  rw [run_bind_pure]
  cases (x.run r).1 <;> simp [Except.map]

theorem after_register (r : Registry) (name : String) (p : Procedure) :
    r.after (.register name p) = ((register name p).run r).2 :=
  congrArg Prod.snd (run_bind_pure (register name p) (fun _ => none) r)

theorem after_close (r : Registry) : r.after .close = (close.run r).2 :=
  congrArg Prod.snd (run_bind_pure close (fun _ => none) r)

theorem after_resolve (r : Registry) (name : String) (span : Span) :
    r.after (.resolve name span) = r :=
  congrArg Prod.snd (run_bind_pure (lookUp name span) some r)

inductive Holds (log : List (String × Procedure)) : Registry → Prop
  | opened : (names log).Nodup → Holds log (.opened log)
  | closed : (names log).Nodup → Covers log → Holds log (.closed (entriesOf log))

namespace Holds

theorem nodup (h : Holds log r) : (names log).Nodup := by
  cases h with
  | opened h => exact h
  | closed h _ => exact h

theorem opened_iff (h : Holds log r) : r.isClosed = false ↔ r = .opened log := by
  cases h with
  | opened _ => exact iff_of_true rfl rfl
  | closed _ _ => exact iff_of_false (by simp [isClosed]) (by simp)

theorem entries (h : Holds log r) (hclosed : r.isClosed = true) :
    r = .closed (entriesOf log) ∧ Covers log := by
  cases h with
  | opened _ => cases hclosed
  | closed _ hcovers => exact ⟨rfl, hcovers⟩

theorem registers_iff (h : Holds log r) :
    (∃ r', (register name p).run r = (.ok (), r')) ↔ r.isClosed = false ∧ name ∉ names log := by
  cases h with
  | opened _ =>
    rw [register_opened]
    split_ifs with hname
    · exact iff_of_false (by rintro ⟨_, ⟨⟩⟩) fun h => h.2 hname
    · exact iff_of_true ⟨_, rfl⟩ ⟨rfl, hname⟩
  | closed _ _ => exact iff_of_false (by rintro ⟨_, ⟨⟩⟩) (by simp [isClosed])

theorem close_of_covers (h : Holds log r) (hopen : r.isClosed = false) (hcovers : Covers log) :
    close.run r = (.ok (), .closed (entriesOf log)) := by
  rw [h.opened_iff.mp hopen, close_opened, if_pos (covers_iff.mp hcovers)]

theorem close_of_not_covers (h : Holds log r) (hopen : r.isClosed = false)
    (hcovers : ¬ Covers log) :
    close.run r =
      (.error (.configuration (.incompleteRegistry (missing log) (unknown log))), r) := by
  rw [h.opened_iff.mp hopen, close_opened, if_neg (covers_iff.not.mp hcovers)]

end Holds

theorem after_of_closed (h : r.isClosed = true) (q : Request) : r.after q = r := by
  cases r with
  | opened _ => cases h
  | closed entries =>
    cases q with
    | register name p => rfl
    | close => rfl
    | resolve name span => exact after_resolve _ name span

theorem registration?_of_closed (h : r.isClosed = true) (q : Request) :
    r.registration? q = none := by
  cases r with
  | opened _ => cases h
  | closed entries => cases q <;> rfl

theorem Holds.after (h : Holds log r) (q : Request) :
    Holds (log ++ (r.registration? q).toList) (r.after q) := by
  cases hclosed : r.isClosed with
  | true => simpa [registration?_of_closed hclosed, after_of_closed hclosed] using h
  | false =>
    obtain rfl := h.opened_iff.mp hclosed
    cases q with
    | register name p =>
      have hregister := register_opened log name p
      by_cases hname : name ∈ names log
      · simpa [registration?, after_register, hregister, hname] using h
      · simp only [registration?, after_register, hregister, hname, if_false, Option.toList_some]
        refine .opened ?_
        simpa only [names, List.concat_eq_append, List.map_append, List.map_cons,
          List.map_nil] using h.nodup.concat hname
    | close =>
      by_cases hcovers : Covers log
      · have hclose := h.close_of_covers hclosed hcovers
        simpa [registration?, after_close, hclose] using Holds.closed h.nodup hcovers
      · have hclose := h.close_of_not_covers hclosed hcovers
        simpa [registration?, after_close, hclose] using h
    | resolve name span => simpa [registration?, after_resolve] using h

theorem Holds.run (h : Holds log r) (qs : List Request) :
    Holds (log ++ r.registrations qs) (r.run qs) := by
  induction qs generalizing r log with
  | nil => simpa [registrations, Registry.run] using h
  | cons q qs ih => simpa [registrations, Registry.run] using ih (h.after q)

theorem holds_run (qs : List Request) : Holds (empty.registrations qs) (empty.run qs) :=
  (@Holds.opened [] List.nodup_nil).run qs

theorem run_register {more : List (String × Procedure)} (h : (names (log ++ more)).Nodup) :
    (opened log).run (more.map fun entry => .register entry.1 entry.2) = opened (log ++ more) := by
  induction more generalizing log with
  | nil => simp [Registry.run]
  | cons entry more ih =>
    rw [List.append_cons] at h ⊢
    have hname : entry.1 ∉ names log := by
      simp only [names, List.map_append, List.map_cons] at h
      have hnew := (List.nodup_append.mp (List.nodup_append.mp h).1).2.2
      exact fun hmem => hnew _ hmem _ List.mem_cons_self rfl
    rw [List.map_cons, Registry.run, List.foldl_cons, after_register, register_opened,
      if_neg hname]
    exact ih h

theorem run_register_close (hnodup : (names log).Nodup) (hcovers : Covers log) :
    empty.run ((log.map fun entry => .register entry.1 entry.2) ++ [.close]) =
      closed (entriesOf log) := by
  have hregister : empty.run (log.map fun entry => .register entry.1 entry.2) = opened log :=
    @run_register [] log hnodup
  calc empty.run ((log.map fun entry => .register entry.1 entry.2) ++ [.close])
      = (opened log).after .close := by rw [← hregister]; exact List.foldl_append
    _ = closed (entriesOf log) := by
      rw [after_close, close_opened, if_pos (covers_iff.mp hcovers)]

theorem run_of_closed (h : r.isClosed = true) (qs : List Request) : r.run qs = r := by
  induction qs with
  | nil => rfl
  | cons q qs ih => rwa [Registry.run, List.foldl_cons, after_of_closed h]

theorem find?_entriesOf (log : List (String × Procedure)) (name : String) :
    (entriesOf log).find? (·.target.name = name) =
      (ScalarType.find? name).bind fun ty => (log.lookup ty.name).map fun p => ⟨ty, p⟩ := by
  simp only [entriesOf, ScalarType.find?, List.find?_filterMap, Option.any_map]
  cases hl : log.lookup name with
  | none =>
    rw [List.find?_eq_none.mpr]
    · cases hf : ScalarType.table.find? (·.name = name) with
      | none => rfl
      | some ty =>
        obtain rfl : ty.name = name := by simpa using List.find?_some hf
        simp [hl]
    · intro ty _
      by_cases hn : ty.name = name
      · simp [hn, hl]
      · simp [hn]
  | some p =>
    congr 2
    funext ty
    by_cases hn : ty.name = name
    · simp [hn, hl]
    · simp [hn]

theorem Holds.size_eq (h : Holds log r) (hclosed : r.isClosed = true) :
    r.size = ScalarType.table.length := by
  obtain ⟨rfl, hcovers⟩ := h.entries hclosed
  simp only [size, entriesOf]
  rw [List.filterMap_length_eq_length]
  intro ty hty
  rw [Option.isSome_map, lookup_isSome_iff, hcovers]
  exact List.mem_map_of_mem hty

theorem Holds.resolve_eq (h : Holds log r) (hclosed : r.isClosed = true) (name : String)
    (span : Span) :
    r.resolve name span =
      match (ScalarType.find? name).bind fun ty => (log.lookup ty.name).map fun p => ⟨ty, p⟩ with
      | some entry => .ok entry
      | none => .error (.source ⟨.unsupportedConversion name, span⟩) := by
  obtain ⟨rfl, -⟩ := h.entries hclosed
  rw [← find?_entriesOf]
  rfl

theorem Holds.resolve_eq_ok (h : Holds log r) {entry : ConversionEntry} {span : Span}
    (hentry : r.resolve name span = .ok entry) :
    ScalarType.find? name = some entry.target ∧
      log.lookup entry.target.name = some entry.procedure := by
  cases hclosed : r.isClosed with
  | false =>
    rw [h.opened_iff.mp hclosed] at hentry
    cases hentry
  | true =>
    rw [h.resolve_eq hclosed] at hentry
    cases hty : ScalarType.find? name with
    | none => simp [hty] at hentry
    | some ty =>
      cases hp : log.lookup ty.name with
      | none => simp [hty, hp] at hentry
      | some p =>
        obtain rfl : (⟨ty, p⟩ : ConversionEntry) = entry := by simpa [hty, hp] using hentry
        exact ⟨rfl, hp⟩

theorem Holds.resolve_mem (h : Holds log r) (hclosed : r.isClosed = true)
    (hty : ty ∈ ScalarType.table) (hp : (ty.name, p) ∈ log) (span : Span) :
    r.resolve ty.name span = .ok ⟨ty, p⟩ := by
  rw [h.resolve_eq hclosed, ScalarType.find?_name ty hty, Option.bind_some,
    lookup_of_mem h.nodup hp, Option.map_some]

theorem Holds.resolve_not_mem (h : Holds log r) (hclosed : r.isClosed = true)
    (hname : name ∉ tableNames) (span : Span) :
    r.resolve name span = .error (.source ⟨.unsupportedConversion name, span⟩) := by
  have hnone : ScalarType.find? name = none := by
    rw [← Option.not_isSome_iff_eq_none]
    exact fun hsome => hname (isName_iff.mp hsome)
  rw [h.resolve_eq hclosed, hnone, Option.bind_none]

theorem holds_default : Holds (choosing usual) default := by
  have hnames : names (choosing usual) = tableNames := by
    simp [names, choosing, tableNames, Function.comp_def]
  refine .closed (hnames ▸ by decide) fun name => ?_
  rw [hnames]

theorem resolve_default_mem (hty : ty ∈ ScalarType.table) (span : Span) :
    Registry.default.resolve ty.name span = .ok ⟨ty, usual ty⟩ :=
  holds_default.resolve_mem rfl hty (List.mem_map_of_mem hty) span

theorem resolve_default {span : Span} {entry : ConversionEntry}
    (h : Registry.default.resolve name span = .ok entry) :
    ScalarType.find? name = some entry.target ∧
      entry.procedure = Procedure.forKind entry.target.kind := by
  obtain ⟨hty, hp⟩ := holds_default.resolve_eq_ok h
  have hmem := List.mem_map_of_mem (f := fun ty => (ty.name, usual ty))
    (ScalarType.find?_eq_some hty).1
  rw [lookup_of_mem holds_default.nodup hmem] at hp
  exact ⟨hty, (Option.some.inj hp).symm⟩

/-- What a registry does, in terms of the registrations that succeeded so far. -/
structure LifeCycle (log : List (String × Procedure)) (r : Registry) : Prop where
  once : (names log).Nodup
  failed : ∀ q e, (q.serve.run r).1 = .error e → r.after q = r ∧ r.registration? q = none
  registers : ∀ name p, (∃ r', (register name p).run r = (.ok (), r')) ↔
    r.isClosed = false ∧ name ∉ names log
  unready : r.isClosed = false →
    r.size = 0 ∧ ∀ name span, r.resolve name span = .error (.configuration .registryNotClosed)
  closes : r.isClosed = false →
    ((∃ r', close.run r = (.ok (), r') ∧ r'.isClosed = true) ↔ Covers log)
  incomplete : r.isClosed = false → ¬ Covers log →
    ∃ unknown, (close.run r).1 = .error (.configuration
        (.incompleteRegistry (tableNames.filter (· ∉ names log)) unknown)) ∧
      unknown.Perm ((names log).filter (· ∉ tableNames)) ∧ unknown.Pairwise (· ≤ ·)
  foreign : ∀ name ∈ names log, name ∉ tableNames → ∀ qs, (r.run qs).isClosed = false
  frozen : r.isClosed = true → ∀ qs, r.run qs = r
  full : r.isClosed = true → r.size = ScalarType.table.length
  locked : r.isClosed = true →
    (∀ name p, (register name p).run r = (.error (.configuration (.registryClosed name)), r)) ∧
      close.run r = (.ok (), r)
  resolves : r.isClosed = true → ∀ ty ∈ ScalarType.table,
    ∃ p, (ty.name, p) ∈ log ∧ ∀ span, r.resolve ty.name span = .ok ⟨ty, p⟩
  unsupported : r.isClosed = true → ∀ name, name ∉ tableNames → ∀ span,
    r.resolve name span = .error (.source ⟨.unsupportedConversion name, span⟩)

/-- Whatever raises does so before it changes anything. -/
theorem after_of_error {e : Fault} (h : (q.serve.run r).1 = .error e) :
    r.after q = r ∧ r.registration? q = none := by
  cases q with
  | register name p =>
    have hrun : ((register name p).run r).1 = .error e := bind_pure_eq_error.mp h
    rw [after_register, registration?]
    cases r with
    | closed entries => exact ⟨rfl, rfl⟩
    | opened log =>
      rw [register_opened] at hrun ⊢
      split_ifs at hrun ⊢ with hname
      exact ⟨rfl, rfl⟩
  | close =>
    have hrun : (close.run r).1 = .error e := bind_pure_eq_error.mp h
    refine ⟨?_, rfl⟩
    rw [after_close]
    cases r with
    | closed entries => rfl
    | opened log =>
      rw [close_opened] at hrun ⊢
      split_ifs at hrun ⊢ with hcovers
      rfl
  | resolve name span => exact ⟨after_resolve r name span, rfl⟩

namespace Holds

theorem closes_iff (h : Holds log r) (hopen : r.isClosed = false) :
    (∃ r', close.run r = (.ok (), r') ∧ r'.isClosed = true) ↔ Covers log := by
  by_cases hcovers : Covers log
  · exact iff_of_true ⟨_, h.close_of_covers hopen hcovers, rfl⟩ hcovers
  · refine iff_of_false ?_ hcovers
    rintro ⟨r', hclose, -⟩
    rw [h.close_of_not_covers hopen hcovers] at hclose
    cases hclose

theorem never_closes (h : Holds log r) (hname : name ∈ names log) (hforeign : name ∉ tableNames)
    (qs : List Request) : (r.run qs).isClosed = false := by
  by_contra hclosed
  obtain ⟨-, hcovers⟩ := (h.run qs).entries (by simpa using hclosed)
  apply hforeign
  rw [← hcovers name, names, List.map_append]
  exact List.mem_append_left _ hname

theorem resolves (h : Holds log r) (hclosed : r.isClosed = true) (hty : ty ∈ ScalarType.table) :
    ∃ p, (ty.name, p) ∈ log ∧ ∀ span, r.resolve ty.name span = .ok ⟨ty, p⟩ := by
  obtain ⟨-, hcovers⟩ := h.entries hclosed
  have hname : ty.name ∈ names log := (hcovers ty.name).mpr (List.mem_map_of_mem hty)
  obtain ⟨⟨_, p⟩, hp, rfl⟩ := List.mem_map.mp hname
  exact ⟨p, hp, h.resolve_mem hclosed hty hp⟩

end Holds

theorem run_lifeCycle (qs : List Request) : LifeCycle (empty.registrations qs) (empty.run qs) := by
  have h := holds_run qs
  constructor
  case once => exact h.nodup
  case failed => exact fun q e => after_of_error
  case registers => exact fun name p => h.registers_iff
  case unready =>
    intro hopen
    rw [h.opened_iff.mp hopen]
    exact ⟨rfl, fun _ _ => rfl⟩
  case closes => exact h.closes_iff
  case incomplete =>
    intro hopen hcovers
    refine ⟨_, ?_, unknown_perm _, unknown_sorted _⟩
    rw [h.close_of_not_covers hopen hcovers, missing_eq]
  case foreign => exact fun name hname hforeign => h.never_closes hname hforeign
  case frozen => exact run_of_closed
  case full => exact h.size_eq
  case locked =>
    intro hclosed
    rw [(h.entries hclosed).1]
    exact ⟨register_closed _, close_closed _⟩
  case resolves => exact fun hclosed ty hty => h.resolves hclosed hty
  case unsupported => exact fun hclosed name hname => h.resolve_not_mem hclosed hname

example : empty.run (((choosing usual).map fun entry => .register entry.1 entry.2) ++ [.close]) =
    default :=
  run_register_close holds_default.nodup (holds_default.entries rfl).2

end Registry

end ContractGuard
