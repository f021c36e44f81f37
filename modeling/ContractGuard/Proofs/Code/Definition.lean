import ContractGuard.Code.Buffer
import Mathlib.Data.List.Basic
import Mathlib.Data.List.Nodup
import Mathlib.Data.List.Pairwise

/-!
# Definitions and uses in safety code

A node defines at most one id and reads at most two. A raw result is one that has not
met its clamp yet; every other definition settles its id, so that any later node may
read it. Ids are numbered, and different numbers give different ids.
-/

namespace ContractGuard

section

variable {ε α β : Type}

@[simp] theorem bind_eq_ok {x : Except ε α} {f : α → Except ε β} {b : β} :
    (x >>= f) = .ok b ↔ ∃ a, x = .ok a ∧ f a = .ok b := by
  cases x <;> simp [bind, Except.bind]

@[simp] theorem pure_eq_ok {a b : α} : (pure a : Except ε α) = .ok b ↔ a = b := by
  simp [pure, Except.pure]

end

theorem ValueId.ofIndex_injective : Function.Injective ValueId.ofIndex := by
  intro m n h
  have hl := congrArg String.toList h
  simp only [ValueId.ofIndex, String.toList_append, Nat.toString_eq_ofList_toDigits,
    String.toList_ofList, List.append_cancel_left_eq] at hl
  have hn := congrArg (Nat.ofDigitChars 10 · 0) hl
  simpa using hn

@[simp] theorem ValueId.ofIndex_inj {m n : ℕ} :
    ValueId.ofIndex m = ValueId.ofIndex n ↔ m = n :=
  ValueId.ofIndex_injective.eq_iff

namespace Node

def defines : Node → Option (ValueId × ScalarType)
  | const dest ty _ => some (dest, ty)
  | loadParam dest _ ty => some (dest, ty)
  | convert dest _ _ toTy _ => some (dest, toTy)
  | binary dest _ _ _ ty => some (dest, ty)
  | clamp dest _ _ _ ty _ => some (dest, ty)
  | _ => none

def dest? (node : Node) : Option ValueId := node.defines.map Prod.fst

/-- A definition that nothing but the clamp after it may read. -/
def raw? : Node → Option (ValueId × ScalarType)
  | convert dest _ _ toTy _ => some (dest, toTy)
  | binary dest _ _ _ ty => some (dest, ty)
  | _ => none

/-- A definition that every later node may read. -/
def settles (node : Node) : Option (ValueId × ScalarType) :=
  if node.raw?.isNone then node.defines else none

def reads : Node → List ValueId
  | convert _ src _ _ _ => [src]
  | binary _ _ left right _ => [left, right]
  | clamp _ src _ _ _ _ => [src]
  | zeroCheck src _ _ => [src]
  | ret value => value.toList
  | _ => []

def isZeroCheck : Node → Bool
  | zeroCheck .. => true
  | _ => false

abbrev clampTo (dest src : ValueId) (ty : ScalarType) (range : Bounds) : Node :=
  .clamp dest src range.lower range.upper ty .rangeViolation

theorem defines_of_raw? {node : Node} {d : ValueId × ScalarType} (h : node.raw? = some d) :
    node.defines = some d := by
  cases node <;> simp_all [raw?, defines]

theorem defines_of_settles {node : Node} {d : ValueId × ScalarType} (h : node.settles = some d) :
    node.defines = some d := by
  simp only [settles] at h
  split_ifs at h
  exact h

theorem dest?_of_defines {node : Node} {id : ValueId} {ty : ScalarType}
    (h : node.defines = some (id, ty)) : node.dest? = some id := by
  simp [dest?, h]

end Node

def dests (code : List Node) : List ValueId := code.filterMap Node.dest?

@[simp] theorem dests_nil : dests [] = [] := rfl

@[simp] theorem dests_cons (node : Node) (code : List Node) :
    dests (node :: code) = node.dest?.toList ++ dests code := by
  cases h : node.dest? <;> simp [dests, h]

@[simp] theorem dests_append (code more : List Node) :
    dests (code ++ more) = dests code ++ dests more := by
  simp [dests]

def Defined (code : List Node) (id : ValueId) (ty : ScalarType) : Prop :=
  ∃ node ∈ code, node.defines = some (id, ty)

def Settled (code : List Node) (id : ValueId) (ty : ScalarType) : Prop :=
  ∃ node ∈ code, node.settles = some (id, ty)

theorem Settled.defined {code : List Node} {id : ValueId} {ty : ScalarType}
    (h : Settled code id ty) : Defined code id ty := by
  obtain ⟨node, hm, hs⟩ := h
  exact ⟨node, hm, Node.defines_of_settles hs⟩

theorem Defined.mem_dests {code : List Node} {id : ValueId} {ty : ScalarType}
    (h : Defined code id ty) : id ∈ dests code := by
  obtain ⟨node, hm, hd⟩ := h
  exact List.mem_filterMap.mpr ⟨node, hm, Node.dest?_of_defines hd⟩

theorem Settled.append {code : List Node} {id : ValueId} {ty : ScalarType}
    (h : Settled code id ty) (more : List Node) : Settled (code ++ more) id ty := by
  obtain ⟨node, hm, hs⟩ := h
  exact ⟨node, List.mem_append_left _ hm, hs⟩

theorem Defined.append {code : List Node} {id : ValueId} {ty : ScalarType}
    (h : Defined code id ty) (more : List Node) : Defined (code ++ more) id ty := by
  obtain ⟨node, hm, hd⟩ := h
  exact ⟨node, List.mem_append_left _ hm, hd⟩

theorem eq_of_dest?_eq {code : List Node} (hn : (dests code).Nodup) {x y : Node}
    (hx : x ∈ code) (hy : y ∈ code) {id : ValueId} (hxd : x.dest? = some id)
    (hyd : y.dest? = some id) : x = y := by
  by_contra hne
  have hp : code.Pairwise fun a b =>
      ∀ i, a.dest? = some i → ∀ j, b.dest? = some j → i ≠ j :=
    List.pairwise_filterMap.mp hn
  have : Std.Symm fun a b : Node =>
      ∀ i, a.dest? = some i → ∀ j, b.dest? = some j → i ≠ j :=
    ⟨fun a b h i hi j hj => (h j hj i hi).symm⟩
  exact hp.forall hx hy hne id hxd id hyd rfl

theorem append_eq_append_cons {code block before after : List Node} {node : Node}
    (h : code ++ block = before ++ node :: after) :
    (∃ rest, code = before ++ node :: rest ∧ after = rest ++ block) ∨
      ∃ start, before = code ++ start ∧ block = start ++ node :: after := by
  rcases List.append_eq_append_iff.mp h with ⟨start, hb, hs⟩ | ⟨rest, hc, hs⟩
  · exact Or.inr ⟨start, hb, hs⟩
  · cases rest with
    | nil => exact Or.inr ⟨[], by simpa using hc.symm, by simpa using hs.symm⟩
    | cons x rest =>
      simp only [List.cons_append, List.cons.injEq] at hs
      obtain ⟨rfl, rfl⟩ := hs
      exact Or.inl ⟨rest, hc, rfl⟩

theorem singleton_eq_split {start after : List Node} {x node : Node}
    (h : [x] = start ++ node :: after) : start = [] ∧ node = x ∧ after = [] := by
  rcases List.cons_eq_append_iff.mp h with ⟨rfl, hs⟩ | ⟨rest, rfl, hs⟩
  · simp_all
  · simp at hs

theorem pair_eq_split {start after : List Node} {x y node : Node}
    (h : [x, y] = start ++ node :: after) :
    (start = [] ∧ node = x ∧ after = [y]) ∨ (start = [x] ∧ node = y ∧ after = []) := by
  rcases List.cons_eq_append_iff.mp h with ⟨rfl, hs⟩ | ⟨rest, rfl, hs⟩
  · simp_all
  · obtain ⟨rfl, rfl, rfl⟩ := singleton_eq_split hs
    exact Or.inr ⟨rfl, rfl, rfl⟩

def ArithOp.divisorCheck (op : ArithOp) (divisor : ValueId) (ty : ScalarType) : List Node :=
  if op = .div then [.zeroCheck divisor ty .divisionByZero] else []

@[simp] theorem ArithOp.dests_divisorCheck (op : ArithOp) (divisor : ValueId) (ty : ScalarType) :
    dests (op.divisorCheck divisor ty) = [] := by
  simp only [divisorCheck]
  split <;> rfl

namespace Buffer

def fresh (b : Buffer) : ValueId := .ofIndex b.nextValue

def push (b : Buffer) (block : List Node) : Buffer :=
  { b with nodes := b.nodes ++ block, nextValue := b.nextValue + (dests block).length }

@[simp] theorem push_nodes (b : Buffer) (block : List Node) :
    (b.push block).nodes = b.nodes ++ block := rfl

@[simp] theorem push_nextValue (b : Buffer) (block : List Node) :
    (b.push block).nextValue = b.nextValue + (dests block).length := rfl

@[simp] theorem finish_nodes (b : Buffer) : b.finish.nodes = b.nodes := rfl

/-- The ids of the code are the first ones, in order. -/
def Numbered (b : Buffer) : Prop :=
  dests b.nodes = (List.range b.nextValue).map ValueId.ofIndex

theorem Numbered.nodup {b : Buffer} (h : b.Numbered) : (dests b.nodes).Nodup := by
  rw [h]
  exact List.nodup_range.map ValueId.ofIndex_injective

theorem Numbered.lt_of_mem {b : Buffer} (h : b.Numbered) {i : ℕ}
    (hm : ValueId.ofIndex i ∈ dests b.nodes) : i < b.nextValue := by
  rw [h] at hm
  simpa using hm

theorem Numbered.fresh_not_mem {b : Buffer} (h : b.Numbered) {i : ℕ} (hi : b.nextValue ≤ i) :
    ValueId.ofIndex i ∉ dests b.nodes :=
  fun hm => absurd (h.lt_of_mem hm) (Nat.not_lt.mpr hi)

end Buffer

end ContractGuard
