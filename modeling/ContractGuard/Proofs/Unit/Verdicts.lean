import ContractGuard.Proofs.Unit.Diagnosis

/-!
# Attribute verdicts

A list of attributes is judged by what it names. The first name outside of the vocabulary
decides; if there is none, only the set of the attributes that are named matters, however they
are written, ordered or repeated. A declaration is reported for a reason of this kind exactly
if its attributes are rejected for it.
-/

namespace ContractGuard

variable {raw raw' before after : List RawAttribute} {x y : RawAttribute} {a : Attribute}

namespace RawAttribute

/-- Without the marks in front, and in small letters, it is the name of the attribute. -/
def Names : RawAttribute → Attribute → Prop
  | text s, a => (s.toList.dropWhile (· = '@')).map Char.toLower = a.name.toList
  | known b, a => b = a

def IsKnown (x : RawAttribute) : Prop := ∃ a, x.Names a

theorem find?_name (a : Attribute) : Attribute.all.find? (·.name = a.name) = some a := by
  cases a <;> rfl

theorem resolve?_eq_some : x.resolve? = some a ↔ x.Names a := by
  cases x with
  | known b => simp [resolve?, Names]
  | text s =>
    simp only [resolve?, Names]
    constructor
    · intro h
      have hname := List.find?_some h
      simp only [decide_eq_true_eq] at hname
      rw [hname, String.toList_ofList]
    · intro h
      rw [h, String.ofList_toList]
      exact find?_name a

theorem resolve?_isNone : x.resolve?.isNone = true ↔ ¬ x.IsKnown := by
  simp [IsKnown, ← resolve?_eq_some, Option.eq_none_iff_forall_ne_some]

theorem names_marked (s : String) : (text ("@" ++ s)).Names a ↔ (text s).Names a := by
  simp [Names]

theorem toLower_eq_mark (c : Char) : c.toLower = '@' ↔ c = '@' := by
  by_cases h : c.val ≥ 'A'.val ∧ c.val ≤ 'Z'.val
  · have hlower : c.toLower.val.toNat = (c.val.toNat + 32) % 2 ^ 32 :=
      congrArg (fun d : Char => d.val.toNat) (dif_pos h)
    have hlow : 65 ≤ c.val.toNat := h.1
    have hhigh : c.val.toNat ≤ 90 := h.2
    refine iff_of_false (fun heq => ?_) (fun heq => ?_)
    · have hval : c.toLower.val.toNat = 64 := congrArg (fun d : Char => d.val.toNat) heq
      omega
    · have hval : c.val.toNat = 64 := congrArg (fun d : Char => d.val.toNat) heq
      omega
  · rw [show c.toLower = c from dif_neg h]

theorem names_recased {s s' : String}
    (h : s.toList.map Char.toLower = s'.toList.map Char.toLower) :
    (text s).Names a ↔ (text s').Names a := by
  have hstrip : ∀ cs : List Char, (cs.dropWhile (· = '@')).map Char.toLower =
      (cs.map Char.toLower).dropWhile (· = '@') := by
    intro cs
    rw [List.dropWhile_map]
    congr 2
    funext c
    simp [toLower_eq_mark]
  simp only [Names, hstrip, h]

end RawAttribute

namespace Attribute

def AllKnown (raw : List RawAttribute) : Prop := ∀ x ∈ raw, x.IsKnown

def Named (raw : List RawAttribute) (a : Attribute) : Prop := ∃ x ∈ raw, x.Names a

theorem contains_resolved :
    (raw.filterMap (·.resolve?)).contains a = true ↔ Named raw a := by
  simp [Named, RawAttribute.resolve?_eq_some]

theorem mem_occurring : a ∈ occurring raw ↔ Named raw a := by
  have hall : a ∈ all := by cases a <;> decide
  rw [occurring, List.mem_filter, contains_resolved]
  exact and_iff_right hall

/-- The same attributes in another order, more than once, or in another spelling. -/
inductive Varies : List RawAttribute → List RawAttribute → Prop
  | reordered {raw raw' : List RawAttribute} : raw.Perm raw' → Varies raw raw'
  | repeated {raw : List RawAttribute} {x : RawAttribute} : x ∈ raw → Varies raw (x :: raw)
  | recased {before after : List RawAttribute} {s s' : String} :
      s.toList.map Char.toLower = s'.toList.map Char.toLower →
      Varies (before ++ .text s :: after) (before ++ .text s' :: after)
  | marked {before after : List RawAttribute} {s : String} :
      Varies (before ++ .text s :: after) (before ++ .text ("@" ++ s) :: after)
  | symm {raw raw' : List RawAttribute} : Varies raw raw' → Varies raw' raw
  | trans {raw raw' raw'' : List RawAttribute} :
      Varies raw raw' → Varies raw' raw'' → Varies raw raw''

def SameNames (raw raw' : List RawAttribute) : Prop :=
  (AllKnown raw ↔ AllKnown raw') ∧ ∀ a, Named raw a ↔ Named raw' a

theorem sameNames_of_mem (h : ∀ x, x ∈ raw ↔ x ∈ raw') : SameNames raw raw' := by
  simp [SameNames, AllKnown, Named, h]

theorem sameNames_replace (h : ∀ a, x.Names a ↔ y.Names a) :
    SameNames (before ++ x :: after) (before ++ y :: after) := by
  have hknown : x.IsKnown ↔ y.IsKnown := exists_congr h
  refine ⟨?_, fun a => ?_⟩
  · simp only [AllKnown, List.forall_mem_append, List.forall_mem_cons, hknown]
  · simp only [Named, List.mem_append, List.mem_cons, or_and_right, exists_or, exists_eq_left, h]

theorem Varies.sameNames (h : Varies raw raw') : SameNames raw raw' := by
  induction h with
  | reordered hperm => exact sameNames_of_mem fun _ => hperm.mem_iff
  | repeated hx =>
    refine sameNames_of_mem fun y => ⟨List.mem_cons_of_mem _, fun hy => ?_⟩
    exact (List.mem_cons.mp hy).elim (fun heq => heq ▸ hx) id
  | recased hcase => exact sameNames_replace fun _ => RawAttribute.names_recased hcase
  | marked => exact sameNames_replace fun _ => (RawAttribute.names_marked _).symm
  | symm _ ih => exact ⟨ih.1.symm, fun a => (ih.2 a).symm⟩
  | trans _ _ ih ih' => exact ⟨ih.1.trans ih'.1, fun a => (ih.2 a).trans (ih'.2 a)⟩

/-- The verdict on a list without unknown names, by what it names. -/
structure Judges (named : Attribute → Prop) (v : Verdict) : Prop where
  missing : v = .reject .missingVisibility ↔ ¬ named isPublic ∧ ¬ named isPrivate
  conflicting : v = .reject .conflictingVisibility ↔ named isPublic ∧ named isPrivate
  payableConstant : v = .reject .payableConstantConflict ↔
    Xor (named isPublic) (named isPrivate) ∧ named payable ∧ named constant
  accepted : v = .accept ↔
    Xor (named isPublic) (named isPrivate) ∧ ¬ (named payable ∧ named constant)

theorem judges_judge (known : List Attribute) :
    Judges (fun a => known.contains a = true) (judge known) := by
  constructor
  all_goals
    simp only [judge]
    cases known.contains isPublic <;> cases known.contains isPrivate <;>
      cases known.contains payable <;> cases known.contains constant <;> decide

theorem judge_congr {known known' : List Attribute}
    (h : ∀ a, known.contains a = true ↔ known'.contains a = true) :
    judge known = judge known' := by
  have hcontains : ∀ a, known.contains a = known'.contains a := fun a => Bool.eq_iff_iff.mpr (h a)
  simp only [judge, hcontains]

theorem validate_of_allKnown (h : AllKnown raw) :
    validate raw = judge (raw.filterMap (·.resolve?)) := by
  have hnone : raw.find? (·.resolve?.isNone) = none := by
    refine List.find?_eq_none.mpr fun x hx => ?_
    rw [RawAttribute.resolve?_isNone, not_not]
    exact h x hx
  rw [validate, hnone]

theorem validate_judges (h : AllKnown raw) : Judges (Named raw) (validate raw) := by
  rw [validate_of_allKnown h, show Named raw = fun a => _ = true from
    funext fun _ => propext contains_resolved.symm]
  exact judges_judge _

theorem validate_congr (hraw : AllKnown raw) (hraw' : AllKnown raw')
    (h : ∀ a, Named raw a ↔ Named raw' a) : validate raw = validate raw' := by
  rw [validate_of_allKnown hraw, validate_of_allKnown hraw']
  refine judge_congr fun a => ?_
  rw [contains_resolved, contains_resolved, h]

theorem validate_of_unknown (h : ¬ AllKnown raw) :
    ∃ before odd after, raw = before ++ odd :: after ∧ AllKnown before ∧ ¬ odd.IsKnown ∧
      validate raw = .rejectUnknown odd.shown := by
  cases hfind : raw.find? (·.resolve?.isNone) with
  | none =>
    refine absurd (fun x hx => ?_) h
    have := List.find?_eq_none.mp hfind x hx
    rwa [RawAttribute.resolve?_isNone, not_not] at this
  | some odd =>
    obtain ⟨hodd, before, after, hsplit, hbefore⟩ := List.find?_eq_some_iff_append.mp hfind
    refine ⟨before, odd, after, hsplit, fun x hx => ?_, RawAttribute.resolve?_isNone.mp hodd, ?_⟩
    · have := hbefore x hx
      rwa [Bool.not_eq_true', ← Bool.not_eq_true, RawAttribute.resolve?_isNone, not_not] at this
    · rw [validate, hfind]

structure FollowsRules (raw : List RawAttribute) : Prop where
  unknown : ¬ AllKnown raw →
    ∃ before odd after, raw = before ++ odd :: after ∧ AllKnown before ∧ ¬ odd.IsKnown ∧
      validate raw = .rejectUnknown odd.shown
  known : AllKnown raw → Judges (Named raw) (validate raw)
  sets : AllKnown raw → ∀ raw', AllKnown raw' → (∀ a, Named raw a ↔ Named raw' a) →
    validate raw' = validate raw
  varies : AllKnown raw → ∀ raw', Varies raw raw' → validate raw' = validate raw
  attributeSet : AllKnown raw → ∀ known : List Attribute,
    (∀ a, a ∈ known ↔ a ∈ occurring raw) → validate (known.map .known) = validate raw

theorem named_known (known : List Attribute) (a : Attribute) :
    Named (known.map .known) a ↔ a ∈ known := by
  simp [Named, RawAttribute.Names]

theorem allKnown_known (known : List Attribute) : AllKnown (known.map .known) :=
  List.forall_mem_map.mpr fun a _ => ⟨a, rfl⟩

theorem followsRules (raw : List RawAttribute) : FollowsRules raw where
  unknown := validate_of_unknown
  known := validate_judges
  sets hraw raw' hraw' h := (validate_congr hraw hraw' h).symm
  varies hraw raw' h :=
    (validate_congr hraw (h.sameNames.1.mp hraw) h.sameNames.2).symm
  attributeSet hraw known h :=
    validate_congr (allKnown_known known) hraw fun a => by rw [named_known, h, mem_occurring]

example : validate [.text "@@Public", .text "constant", .known .isPublic] = .accept := by decide

end Attribute

def RejectionReason.code : RejectionReason → String
  | unknownAttribute => "UnknownAttribute"
  | missingVisibility => "MissingVisibility"
  | conflictingVisibility => "ConflictingVisibility"
  | payableConstantConflict => "PayableConstantConflict"

theorem RejectionReason.code_injective {reason reason' : RejectionReason}
    (h : reason.code = reason'.code) : reason = reason' := by
  revert h
  cases reason <;> cases reason' <;> decide

theorem Verdict.toFault_code {v : Verdict} {function : String} {span : Span}
    {fault : SourceFault} (h : v.toFault function span = .ok fault) :
    ∃ reason, v.reason = some reason ∧ fault.cause.code = reason.code := by
  obtain ⟨state, _ | reason, detail⟩ := v
  · cases h
  · refine ⟨reason, rfl, ?_⟩
    cases reason <;> cases h <;> rfl

theorem Attribute.validate_state (raw : List RawAttribute) :
    (validate raw).state = .rejected ↔ (validate raw).isAccepted = false := by
  simp only [validate, judge]
  split
  · exact iff_of_true rfl rfl
  · split_ifs <;> decide

theorem Cause.code_ne {cause : Cause} (h : cause.isAttributeRejection = false)
    (reason : RejectionReason) : cause.code ≠ reason.code := by
  cases cause with
  | missingVisibility | conflictingVisibility | payableConstantConflict | unknownAttribute
  | attributeRejection => cases h
  | _ => cases reason <;> simp [code, RejectionReason.code]

namespace FunctionDecl

variable {r : Registry} {decl : FunctionDecl}

theorem Refuses.not_rejection {site : Site} {cause : Cause} (h : decl.Refuses site cause) :
    cause.isAttributeRejection = false := by
  cases h with
  | conversion hcause => cases hcause <;> rfl
  | operation hcause => cases hcause <;> rfl
  | _ => rfl

def Reports (decl : FunctionDecl) (r : Registry) (reason : RejectionReason) : Prop :=
  ∃ f d, decl.compile r = .ok f ∧ f.compiled = none ∧ f.diagnostics = [d] ∧
    d.code = some reason.code

def RejectedFor (decl : FunctionDecl) (reason : RejectionReason) : Prop :=
  (Attribute.validate decl.attributes).state = .rejected ∧
    (Attribute.validate decl.attributes).reason = some reason

theorem reports_of_rejectedFor {reason : RejectionReason} (h : decl.RejectedFor reason)
    (r : Registry) : decl.Reports r reason := by
  obtain ⟨hstate, hreason⟩ := h
  obtain ⟨fault, hfault, hcompile⟩ :=
    compile_rejected ((Attribute.validate_state _).mp hstate) r
  obtain ⟨reason', hreason', hcode⟩ := Verdict.toFault_code hfault
  obtain rfl := Option.some.inj (hreason.symm.trans hreason')
  exact ⟨_, _, hcompile, rfl, rfl, congrArg some hcode⟩

theorem rejectedFor_of_reports (hr : r.BuiltIn) {reason : RejectionReason}
    (h : decl.Reports r reason) : decl.RejectedFor reason := by
  obtain ⟨f, d, hcompile, -, hdiagnostics, hcode⟩ := h
  obtain ⟨n, site, fault, hfirst, rfl⟩ := firstFault_of_compile hcompile
    (hdiagnostics ▸ List.mem_singleton_self d)
  have hcode : fault.cause.code = reason.code := Option.some.inj hcode
  cases hfirst with
  | attributes hrejected hfault =>
    obtain ⟨reason', hreason', hcode'⟩ := Verdict.toFault_code hfault
    obtain rfl := RejectionReason.code_injective (hcode'.symm.trans hcode)
    exact ⟨(Attribute.validate_state _).mpr hrejected, hreason'⟩
  | lowering _ hfaults =>
    exact absurd hcode (Cause.code_ne (hfaults.refuses hr).2.not_rejection reason)

/-- Every list of attributes is judged by the rules, and whatever else a declaration holds, it
is reported for one of their reasons exactly if its attributes are rejected for it. -/
theorem attributes_follow_rules (hr : r.BuiltIn) :
    (∀ raw, Attribute.FollowsRules raw) ∧
      ∀ (decl : FunctionDecl) (reason : RejectionReason),
        decl.Reports r reason ↔ decl.RejectedFor reason :=
  ⟨Attribute.followsRules, fun _ _ =>
    ⟨rejectedFor_of_reports hr, fun h => reports_of_rejectedFor h r⟩⟩

theorem attributes_follow_rules_share :
    Reports { share with attributes := [.text "@Payable", .known .constant, .text "PUBLIC"] }
      .default .payableConstantConflict :=
  ((attributes_follow_rules Registry.builtIn_default).2 _ _).mpr ⟨by decide, by decide⟩

end FunctionDecl

end ContractGuard
