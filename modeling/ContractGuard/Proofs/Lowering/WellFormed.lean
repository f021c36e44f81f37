import ContractGuard.Proofs.Lowering.Growth

/-!
# Lowered code is well formed

Ids are defined once, in order and without a gap, and read only after that. The code
starts by loading the parameters and ends in a return, and every node finds values of
the types that it expects.
-/

namespace ContractGuard

variable {r : Registry} {result : Option ScalarType} {locals locals' : Locals}
  {b b' : Buffer}

structure WellFormed (decl : FunctionDecl) (result : Option ScalarType) (code : List Node) :
    Prop where
  numbered : ∃ n, dests code = (List.range n).map ValueId.ofIndex
  reads : ∀ before node after, code = before ++ node :: after →
    ∀ id ∈ node.reads, id ∈ dests before
  parameters : ∀ (i : ℕ) (p : Param), decl.params[i]? = some p →
    ∃ ty, ScalarType.find? p.typeName = some ty ∧
      code[i]? = some (.loadParam (.ofIndex i) p.name ty)
  typed : ∀ before node after, code = before ++ node :: after → node.WellTyped result before
  closed : ∃ value, code.getLast? = some (.ret value)

theorem Grows.getElem?_eq (h : Grows result b b') {i : ℕ} {node : Node}
    (hi : b.nodes[i]? = some node) : b'.nodes[i]? = some node := by
  obtain ⟨more, hm⟩ := h.nodes_isPrefix
  have hlt : i < b.nodes.length := (List.getElem?_eq_some_iff.mp hi).1
  rw [← hm, List.getElem?_append_left hlt, hi]

namespace Lowering

/-- From buffer `b` on, the next nodes load the parameters into the next ids. -/
theorem ParamsLower.loads {params : List Param} (h : ParamsLower params locals b locals' b')
    (hl : locals.Settled b.nodes) {i : ℕ} {p : Param} (hi : params[i]? = some p) :
    ∃ ty, ScalarType.find? p.typeName = some ty ∧
      b'.nodes[b.nodes.length + i]? = some (.loadParam (.ofIndex (b.nextValue + i)) p.name ty) := by
  induction h generalizing i with
  | nil => simp at hi
  | @cons q rest ty locals locals' b b' ht _ hrest ih =>
    have hg : Grows none b (b.push [.loadParam b.fresh q.name ty]) := .one .loadParam
    have hs : Settled (b.push [.loadParam b.fresh q.name ty]).nodes b.fresh ty :=
      ⟨_, List.mem_append_right _ (List.mem_singleton_self _), rfl⟩
    have hl' : Locals.Settled _ ((q.name, _) :: locals) :=
      .cons (TypedValue.settled_runtime hs) (hl.grow hg)
    cases i with
    | zero =>
      obtain rfl : q = p := by simpa using hi
      obtain ⟨hg', _⟩ := hrest.grows none hl'
      refine ⟨ty, ht, hg'.getElem?_eq ?_⟩
      simp [Buffer.fresh]
    | succ i =>
      obtain ⟨ty', ht', hnode⟩ := ih hl' (by simpa using hi)
      refine ⟨ty', ht', ?_⟩
      simpa [Node.dest?, Node.defines, Nat.add_assoc, Nat.add_comm 1] using hnode

theorem Closes.endsInReturn (h : Closes result b b') :
    ∃ value, b'.nodes.getLast? = some (.ret value) := by
  cases h with
  | ended he =>
    cases hlast : b.nodes.getLast? with
    | none => simp [Lowering.endsInReturn, hlast] at he
    | some node =>
      have hret : node.isReturn = true := by simpa [Lowering.endsInReturn, hlast] using he
      cases node with
      | ret value => exact ⟨value, rfl⟩
      | _ => simp [Node.isReturn] at hret
  | «open» _ _ => exact ⟨none, by simp⟩

end Lowering

theorem lower_wellFormed {decl : FunctionDecl} {f : CompiledFunction}
    (h : decl.lower r = .ok f) :
    ∃ result, Lowering.resultType decl = .ok result ∧ WellFormed decl result f.nodes := by
  obtain ⟨result, locals, locals', b₀, b₁, b₂, hf, rfl⟩ := Lowering.lower_eq_ok.mp h
  obtain ⟨hg₀, hg₁, _⟩ := hf.grows
  have hg := hg₀.trans hg₁
  have htyped := hg.wellTyped .nil
  refine ⟨result, hf.resultType, ⟨_, hg.numbered rfl⟩, ?_, ?_, htyped, hf.closes.endsInReturn⟩
  · intro before node after hs id hid
    exact (htyped before node after hs).mem_dests_of_reads hid
  · intro i p hi
    have hnil : Locals.Settled ({ name := decl.name } : Buffer).nodes [] := by
      intro entry he
      simp at he
    obtain ⟨ty, ht, hnode⟩ := hf.params.loads hnil hi
    refine ⟨ty, ht, hg₁.getElem?_eq ?_⟩
    simpa using hnode

theorem share_wellFormed :
    ∃ f result, FunctionDecl.share.lower .default = .ok f ∧
      Lowering.resultType .share = .ok result ∧ WellFormed .share result f.nodes := by
  obtain ⟨f, hf⟩ := FunctionDecl.share_lowers
  obtain ⟨result, hr, hw⟩ := lower_wellFormed hf
  exact ⟨f, result, hf, hr, hw⟩

end ContractGuard
