import ContractGuard.Proofs.Code.Definition
import ContractGuard.Scalar.Literal

/-!
# How guarded code grows

Guarded code grows by whole blocks: a constant, a loaded parameter, a clamp alone, a
conversion or an operation together with its clamp, or a return. A raw result is
defined and clamped within one block, and a block reads nothing but settled ids
besides. What every block keeps therefore holds of all code that grew from nothing.
-/

namespace ContractGuard

variable {result : Option ScalarType} {code block : List Node} {n : ℕ} {b b' b'' : Buffer}

/-- What one step appends to code that has handed out `n` ids. -/
inductive Block (result : Option ScalarType) (code : List Node) (n : ℕ) : List Node → Prop
  | const {ty : ScalarType} {value : Payload} :
      ty.literalInRange value = .ok true → Block result code n [.const (.ofIndex n) ty value]
  | loadParam {name : String} {ty : ScalarType} :
      Block result code n [.loadParam (.ofIndex n) name ty]
  | clamp {src : ValueId} {ty : ScalarType} {range : Bounds} :
      Settled code src ty → ty.bounds = .ok range →
      Block result code n [.clampTo (.ofIndex n) src ty range]
  | convert {src : ValueId} {fromTy toTy : ScalarType} {mode : ConvertMode} {range : Bounds} :
      Settled code src fromTy → fromTy ≠ toTy → toTy.bounds = .ok range →
      Block result code n [.convert (.ofIndex n) src fromTy toTy mode,
        .clampTo (.ofIndex (n + 1)) (.ofIndex n) toTy range]
  | binary {op : ArithOp} {left right : ValueId} {ty : ScalarType} {range : Bounds} :
      Settled code left ty → Settled code right ty → ty.isNumeric = true →
      ty.bounds = .ok range →
      Block result code n (op.divisorCheck right ty ++ [.binary (.ofIndex n) op left right ty,
        .clampTo (.ofIndex (n + 1)) (.ofIndex n) ty range])
  | bareReturn : result = none → Block result code n [.ret none]
  | valueReturn {id : ValueId} {ty : ScalarType} :
      Settled code id ty → (∀ expected, result = some expected → ty = expected) →
      Block result code n [.ret (some id)]

inductive Grows (result : Option ScalarType) (b : Buffer) : Buffer → Prop
  | refl : Grows result b b
  | step {b' : Buffer} {block : List Node} :
      Grows result b b' → Block result b'.nodes b'.nextValue block → Grows result b (b'.push block)

namespace Grows

theorem trans (h : Grows result b b') (h' : Grows result b' b'') : Grows result b b'' := by
  induction h' with
  | refl => exact h
  | step _ hb ih => exact ih.step hb

theorem one (hb : Block result b.nodes b.nextValue block) : Grows result b (b.push block) :=
  Grows.refl.step hb

theorem nodes_isPrefix (h : Grows result b b') : b.nodes <+: b'.nodes := by
  induction h with
  | refl => exact List.prefix_rfl
  | step _ _ ih => exact ih.trans (List.prefix_append _ _)

theorem settled (h : Grows result b b') {id : ValueId} {ty : ScalarType}
    (hs : Settled b.nodes id ty) : Settled b'.nodes id ty := by
  obtain ⟨more, hm⟩ := h.nodes_isPrefix
  exact hm ▸ hs.append more

end Grows

inductive BlockNode (result : Option ScalarType) (code : List Node) (n : ℕ) :
    List Node → Node → List Node → Prop
  | const {ty : ScalarType} {value : Payload} :
      ty.literalInRange value = .ok true →
      BlockNode result code n [] (.const (.ofIndex n) ty value) []
  | loadParam {name : String} {ty : ScalarType} :
      BlockNode result code n [] (.loadParam (.ofIndex n) name ty) []
  | clamp {src : ValueId} {ty : ScalarType} {range : Bounds} :
      Settled code src ty → ty.bounds = .ok range →
      BlockNode result code n [] (.clampTo (.ofIndex n) src ty range) []
  | convert {src : ValueId} {fromTy toTy : ScalarType} {mode : ConvertMode} {range : Bounds} :
      Settled code src fromTy → fromTy ≠ toTy → toTy.bounds = .ok range →
      BlockNode result code n [] (.convert (.ofIndex n) src fromTy toTy mode)
        [.clampTo (.ofIndex (n + 1)) (.ofIndex n) toTy range]
  | convertClamp {src : ValueId} {fromTy toTy : ScalarType} {mode : ConvertMode}
      {range : Bounds} :
      toTy.bounds = .ok range →
      BlockNode result code n [.convert (.ofIndex n) src fromTy toTy mode]
        (.clampTo (.ofIndex (n + 1)) (.ofIndex n) toTy range) []
  | zeroCheck {divisor : ValueId} {ty : ScalarType} {after : List Node} :
      Settled code divisor ty →
      BlockNode result code n [] (.zeroCheck divisor ty .divisionByZero) after
  | binary {op : ArithOp} {left right : ValueId} {ty : ScalarType} {range : Bounds} :
      Settled code left ty → Settled code right ty → ty.isNumeric = true →
      ty.bounds = .ok range →
      BlockNode result code n (op.divisorCheck right ty) (.binary (.ofIndex n) op left right ty)
        [.clampTo (.ofIndex (n + 1)) (.ofIndex n) ty range]
  | binaryClamp {op : ArithOp} {left right : ValueId} {ty : ScalarType} {range : Bounds} :
      ty.bounds = .ok range →
      BlockNode result code n
        (op.divisorCheck right ty ++ [.binary (.ofIndex n) op left right ty])
        (.clampTo (.ofIndex (n + 1)) (.ofIndex n) ty range) []
  | bareReturn : result = none → BlockNode result code n [] (.ret none) []
  | valueReturn {id : ValueId} {ty : ScalarType} :
      Settled code id ty → (∀ expected, result = some expected → ty = expected) →
      BlockNode result code n [] (.ret (some id)) []

theorem Block.node (h : Block result code n block) {start after : List Node} {node : Node}
    (hs : block = start ++ node :: after) : BlockNode result code n start node after := by
  cases h with
  | const hv =>
    obtain ⟨rfl, rfl, rfl⟩ := singleton_eq_split hs
    exact .const hv
  | loadParam =>
    obtain ⟨rfl, rfl, rfl⟩ := singleton_eq_split hs
    exact .loadParam
  | clamp hsrc hr =>
    obtain ⟨rfl, rfl, rfl⟩ := singleton_eq_split hs
    exact .clamp hsrc hr
  | convert hsrc hne hr =>
    rcases pair_eq_split hs with ⟨rfl, rfl, rfl⟩ | ⟨rfl, rfl, rfl⟩
    · exact .convert hsrc hne hr
    · exact .convertClamp hr
  | @binary op left right ty range hl hr hnum hb =>
    rcases append_eq_append_cons hs with ⟨rest, hd, rfl⟩ | ⟨rest, rfl, hp⟩
    · simp only [ArithOp.divisorCheck] at hd
      split at hd
      · obtain ⟨rfl, rfl, rfl⟩ := singleton_eq_split hd
        exact .zeroCheck hr
      · simp at hd
    · rcases pair_eq_split hp with ⟨rfl, rfl, rfl⟩ | ⟨rfl, rfl, rfl⟩
      · rw [List.append_nil]
        exact .binary hl hr hnum hb
      · exact .binaryClamp hb
  | bareReturn hn =>
    obtain ⟨rfl, rfl, rfl⟩ := singleton_eq_split hs
    exact .bareReturn hn
  | valueReturn hid hty =>
    obtain ⟨rfl, rfl, rfl⟩ := singleton_eq_split hs
    exact .valueReturn hid hty

theorem Block.dests_eq (h : Block result code n block) :
    dests block = (List.range' n (dests block).length).map ValueId.ofIndex := by
  cases h <;> simp [Node.dest?, Node.defines, List.range'_succ]

theorem Buffer.Numbered.push (hn : b.Numbered)
    (h : dests block = (List.range' b.nextValue (dests block).length).map ValueId.ofIndex) :
    (b.push block).Numbered := by
  simp only [Numbered] at hn ⊢
  rw [push_nodes, push_nextValue, dests_append, hn, h, List.length_map, List.length_range',
    ← List.map_append, List.range_eq_range', List.range_eq_range']
  congr 1
  simpa using List.range'_append_1 (s := 0) (m := b.nextValue) (n := (dests block).length)

theorem Grows.numbered (h : Grows result b b') (hn : b.Numbered) : b'.Numbered := by
  induction h with
  | refl => exact hn
  | step _ hb ih => exact ih.push hb.dests_eq

def EachNode (P : List Node → Node → Prop) (code : List Node) : Prop :=
  ∀ before node after, code = before ++ node :: after → P before node

theorem EachNode.nil {P : List Node → Node → Prop} : EachNode P [] := by
  intro before node after h
  simp at h

/-- A property of nodes that every block has holds throughout code that grows. -/
theorem Grows.eachNode {P : List Node → Node → Prop}
    (hP : ∀ code n start node after, BlockNode result code n start node after →
      P (code ++ start) node)
    (h : Grows result b b') (hb : EachNode P b.nodes) : EachNode P b'.nodes := by
  induction h with
  | refl => exact hb
  | step _ hblock ih =>
    intro before node after hs
    rcases append_eq_append_cons hs with ⟨rest, hold, -⟩ | ⟨start, rfl, hnew⟩
    · exact ih before node rest hold
    · exact hP _ _ start node after (hblock.node hnew)

def Node.WellTyped (result : Option ScalarType) (before : List Node) : Node → Prop
  | .const .. => True
  | .loadParam .. => True
  | .convert _ src fromTy toTy _ => Defined before src fromTy ∧ fromTy ≠ toTy
  | .binary _ _ left right ty =>
    Defined before left ty ∧ Defined before right ty ∧ ty.kind ≠ .bytes
  | .clamp _ src _ _ ty _ => Defined before src ty
  | .zeroCheck src ty _ => Defined before src ty
  | .ret none => result = none
  | .ret (some id) =>
    ∃ ty, Defined before id ty ∧ ∀ expected, result = some expected → ty = expected
  | .bareCheck => False
  | .bare => False

/-- Constants are legal, clamps keep to the table, divisors are checked just before. -/
def Node.Checked (before : List Node) : Node → Prop
  | .const _ ty value => ty.literalInRange value = .ok true
  | .clamp _ _ lower upper ty abort => ty.bounds = .ok ⟨lower, upper⟩ ∧ abort = .rangeViolation
  | .binary _ op _ right ty =>
    op = .div → ∃ start, before = start ++ [.zeroCheck right ty .divisionByZero]
  | _ => True

theorem Node.WellTyped.mem_dests_of_reads {node : Node} (h : node.WellTyped result code)
    {id : ValueId} (hr : id ∈ node.reads) : id ∈ dests code := by
  cases node with
  | const _ _ _ | loadParam _ _ _ | bareCheck | bare => simp [Node.reads] at hr
  | convert _ src fromTy _ _ =>
    obtain rfl : id = src := by simpa [Node.reads] using hr
    exact h.1.mem_dests
  | binary _ _ left right ty =>
    rcases (by simpa [Node.reads] using hr : id = left ∨ id = right) with rfl | rfl
    · exact h.1.mem_dests
    · exact h.2.1.mem_dests
  | clamp _ src _ _ ty _ =>
    obtain rfl : id = src := by simpa [Node.reads] using hr
    exact Defined.mem_dests h
  | zeroCheck src ty _ =>
    obtain rfl : id = src := by simpa [Node.reads] using hr
    exact Defined.mem_dests h
  | ret value =>
    obtain rfl : value = some id := by simpa [Node.reads] using hr
    obtain ⟨ty, hd, _⟩ := h
    exact hd.mem_dests

theorem BlockNode.wellTyped {start after : List Node} {node : Node}
    (h : BlockNode result code n start node after) : node.WellTyped result (code ++ start) := by
  cases h with
  | const _ | loadParam => trivial
  | clamp hsrc _ => exact hsrc.defined.append []
  | convert hsrc hne _ => exact ⟨hsrc.defined.append [], hne⟩
  | convertClamp _ => exact ⟨_, List.mem_append_right _ (List.mem_singleton_self _), rfl⟩
  | zeroCheck hd => exact hd.defined.append []
  | binary hl hr hnum _ =>
    exact ⟨hl.defined.append _, hr.defined.append _, by simpa [ScalarType.isNumeric] using hnum⟩
  | binaryClamp _ =>
    refine ⟨_, List.mem_append_right _ (List.mem_append_right _ (List.mem_singleton_self _)), rfl⟩
  | bareReturn hn => exact hn
  | valueReturn hid hty => exact ⟨_, hid.defined.append [], hty⟩

theorem BlockNode.checked {start after : List Node} {node : Node}
    (h : BlockNode result code n start node after) : node.Checked (code ++ start) := by
  cases h with
  | const hv => exact hv
  | clamp _ hr | convertClamp hr | binaryClamp hr => exact ⟨hr, rfl⟩
  | binary _ _ _ _ =>
    intro ho
    simp only [ArithOp.divisorCheck, if_pos ho]
    exact ⟨code, rfl⟩
  | loadParam | convert _ _ _ | zeroCheck _ | bareReturn _ | valueReturn _ _ => trivial

theorem Grows.wellTyped (h : Grows result b b')
    (hb : EachNode (fun before node => node.WellTyped result before) b.nodes) :
    EachNode (fun before node => node.WellTyped result before) b'.nodes :=
  h.eachNode (fun _ _ _ _ _ hnode => hnode.wellTyped) hb

theorem Grows.checked (h : Grows result b b')
    (hb : EachNode (fun before node => node.Checked before) b.nodes) :
    EachNode (fun before node => node.Checked before) b'.nodes :=
  h.eachNode (fun _ _ _ _ _ hnode => hnode.checked) hb

end ContractGuard
