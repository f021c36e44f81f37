import ContractGuard.Proofs.Code.Growth
import ContractGuard.Proofs.Conversion.LifeCycle
import ContractGuard.Proofs.Lowering.Steps

/-!
# All or nothing

A conversion or an operation makes all of its checks before it emits its first node, and what
it looks up while emitting is the range of a type that the table knows. So a step that fails
leaves the buffer alone, and one that succeeds appends nodes that define the next ids in order.
-/

namespace ContractGuard

open ScalarType

variable {α : Type} {b b' b'' : Buffer} {u v w : TypedValue} {span : Span} {fault : Fault}
  {id : ValueId} {target : String}

namespace Buffer

def Extends (b b' : Buffer) : Prop :=
  ∃ block, b' = b.push block ∧
    dests block = (List.range' b.nextValue (dests block).length).map ValueId.ofIndex

theorem Extends.refl (b : Buffer) : b.Extends b := ⟨[], by simp [push], rfl⟩

theorem Extends.trans (h : b.Extends b') (h' : b'.Extends b'') : b.Extends b'' := by
  obtain ⟨block, rfl, hblock⟩ := h
  obtain ⟨more, rfl, hmore⟩ := h'
  refine ⟨block ++ more, by simp [push, Nat.add_assoc], ?_⟩
  rw [dests_append, List.length_append, ← List.range'_append_1, List.map_append, ← hblock]
  exact congrArg _ hmore

theorem Extends.numbered (h : b.Extends b') (hn : b.Numbered) : b'.Numbered := by
  obtain ⟨block, rfl, hblock⟩ := h
  exact hn.push hblock

end Buffer

theorem Emit.Holds.extends (h : Emit.Holds v b id b') : b.Extends b' := by
  cases h with
  | held _ => exact .refl b
  | constant _ => exact ⟨_, rfl, rfl⟩

namespace ConversionEntry

variable {entry : ConversionEntry} {converted : Converted}

theorem Emits.extends (h : entry.Emits v converted b w b') : b.Extends b' := by
  cases h with
  | same hheld _ _ => exact hheld.extends.trans ⟨_, rfl, rfl⟩
  | changed hheld _ _ => exact hheld.extends.trans ⟨_, rfl, rfl⟩

theorem Emits.clamped (h : entry.Emits v converted b w b') :
    ∃ dest src range, w = entry.result v converted dest ∧ entry.target.bounds = .ok range ∧
      b'.nodes.getLast? = some (.clampTo dest src entry.target range) := by
  cases h with
  | @same id b₁ range _ _ hrange => exact ⟨b₁.fresh, id, range, rfl, hrange, by simp⟩
  | @changed id b₁ range _ _ hrange =>
    exact ⟨.ofIndex (b₁.nextValue + 1), b₁.fresh, range, rfl, hrange, by simp⟩

theorem emits_exists (hb : ∃ range, entry.target.bounds = .ok range) (v : TypedValue)
    (converted : Converted) (b : Buffer) : ∃ w b', entry.Emits v converted b w b' := by
  obtain ⟨range, hrange⟩ := hb
  obtain ⟨id, b₁, hheld⟩ := Emit.holds_exists v b
  by_cases hty : v.ty = entry.target
  · exact ⟨_, _, .same hheld hty hrange⟩
  · exact ⟨_, _, .changed hheld hty hrange⟩

end ConversionEntry

namespace Registry

variable {r : Registry} {entry : ConversionEntry} {converted : Converted}

theorem convert_of_refused (hentry : r.resolve target span = .ok entry)
    (h : entry.plan v span = .error fault) (b : Buffer) :
    (r.convert v target span).run b = (.error fault, b) := by
  simp only [convert]
  rw [hentry]
  change (Emit.ofExcept (entry.plan v span) >>= entry.emit v : Emit TypedValue).run b = _
  rw [h]
  rfl

theorem convert_of_planned (hentry : r.resolve target span = .ok entry)
    (h : entry.plan v span = .ok converted) (hb : ∃ range, entry.target.bounds = .ok range)
    (b : Buffer) :
    ∃ w b', (r.convert v target span).run b = (.ok w, b') ∧
      entry.Emits v converted b w b' := by
  obtain ⟨w, b', he⟩ := ConversionEntry.emits_exists hb v converted b
  have hplanned := ConversionEntry.plan_eq_ok.mp h
  exact ⟨w, b', convert_yields.mpr ⟨entry, converted, hentry, hplanned, he⟩, he⟩

end Registry

namespace ArithOp

variable {op : ArithOp} {folded : Option Payload} {range : Bounds}

theorem Emits.extends (h : op.Emits v w folded b u b') : b.Extends b' := by
  cases h with
  | clamped hleft hright _ =>
    refine hleft.extends.trans (hright.extends.trans ⟨_, rfl, ?_⟩)
    rw [dests_append, dests_divisorCheck]
    rfl

theorem guard_of_refused (h : op.plan v w span = .error fault) (b : Buffer) :
    (guard (.known op) v w span).run b = (.error fault, b) := by
  change ((Emit.ofExcept (op.plan v w span) >>= op.emit v w : Emit TypedValue).run b) = _
  rw [h]
  rfl

theorem guard_of_planned (h : op.plan v w span = .ok folded) (hb : v.ty.bounds = .ok range)
    (b : Buffer) :
    ∃ u b', (guard (.known op) v w span).run b = (.ok u, b') ∧ op.Emits v w folded b u b' := by
  obtain ⟨lhs, b₁, hl⟩ := Emit.holds_exists v b
  obtain ⟨rhs, b₂, hr⟩ := Emit.holds_exists w b₁
  have he : op.Emits v w folded b _ _ := .clamped hl hr hb
  exact ⟨_, _, guard_yields.mpr ⟨op, folded, rfl, plan_eq_ok.mp h, he⟩, he⟩

end ArithOp

end ContractGuard
