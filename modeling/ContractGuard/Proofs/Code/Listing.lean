import ContractGuard.Code.Listing
import ContractGuard.Proofs.Code.Definition
import ContractGuard.Proofs.Decimal.Text
import ContractGuard.Proofs.Scalar.Datum

/-!
# What a listing says

A line is a list of words, and the listing a list of lines; since no word holds a blank or the
end of a line, both can be told from the text. The words show the form of the node and all of
its fields but two: the kind of a constant's payload, which its type tells as long as every
payload has the form usual for the type, and the layout of a type, which its name tells as long
as all types are in the table. The listing of such code determines the code.
-/

namespace ContractGuard

namespace Text

def Unbroken (s : String) : Prop := ' ' ∉ s.toList ∧ '\n' ∉ s.toList

instance (s : String) : Decidable (Unbroken s) := by
  unfold Unbroken
  infer_instance

variable {s t : String} {c : Char} {words words' : List String}

theorem unbroken_of_le (h : ∀ c ∈ s.toList, 33 ≤ c.toNat) : Unbroken s :=
  ⟨fun hc => absurd (h _ hc) (by decide), fun hc => absurd (h _ hc) (by decide)⟩

theorem unbroken_append : Unbroken (s ++ t) ↔ Unbroken s ∧ Unbroken t := by
  simp only [Unbroken, String.toList_append, List.mem_append, not_or]
  tauto

theorem not_mem_intercalate (hs : c ∉ s.toList) (h : ∀ w ∈ words, c ∉ w.toList) :
    c ∉ (s.intercalate words).toList := by
  induction words with
  | nil => simp
  | cons w words ih =>
    obtain ⟨hw, hwords⟩ := List.forall_mem_cons.mp h
    cases words with
    | nil => simpa using hw
    | cons w' words =>
      rw [String.intercalate_cons_cons, String.toList_append, String.toList_append]
      simp only [List.mem_append, not_or]
      exact ⟨⟨hw, hs⟩, ih hwords⟩

theorem intercalate_inj (hs : s.toList = [c]) (hne : words ≠ []) (hne' : words' ≠ [])
    (h : ∀ w ∈ words, c ∉ w.toList) (h' : ∀ w ∈ words', c ∉ w.toList)
    (heq : s.intercalate words = s.intercalate words') : words = words' := by
  have hsplit : ∀ {ws : List String}, ws ≠ [] → (∀ w ∈ ws, c ∉ w.toList) →
      (s.intercalate ws).toList.splitOn c = ws.map String.toList := by
    intro ws hne h
    rw [String.toList_intercalate, hs]
    exact List.splitOn_intercalate c (by simpa using h) (by simpa using hne)
  have hlists : words.map String.toList = words'.map String.toList := by
    rw [← hsplit hne h, ← hsplit hne' h', heq]
  exact List.map_injective_iff.mpr (fun _ _ => String.toList_injective) hlists

end Text

open Text

theorem ArithOp.ofName?_name (op : ArithOp) : ofName? op.name = some op := by
  cases op <;> rfl

theorem ArithOp.name_injective : Function.Injective ArithOp.name := by
  intro op op' h
  exact Option.some.inj ((ofName?_name op).symm.trans (h ▸ ofName?_name op'))

theorem ArithOp.unbroken_name (op : ArithOp) : Unbroken op.name := by
  cases op <;> decide

theorem ConvertMode.ofName_name (mode : ConvertMode) : ofName mode.name = .ok mode := by
  cases mode <;> rfl

theorem ConvertMode.name_injective : Function.Injective ConvertMode.name := by
  intro mode mode' h
  exact Except.ok.inj ((ofName_name mode).symm.trans (h ▸ ofName_name mode'))

theorem ConvertMode.unbroken_name (mode : ConvertMode) : Unbroken mode.name := by
  cases mode <;> decide

theorem ScalarType.unbroken_name : ∀ ty ∈ table, Unbroken ty.name := by decide

theorem ScalarType.name_ne_equals : ∀ ty ∈ table, ty.name ≠ "=" := by decide

theorem ValueId.unbroken_ofIndex (n : ℕ) : Unbroken (ofIndex n) := by
  have hlist : (ofIndex n).toList = '%' :: Nat.toDigits 10 n := by
    simp [ofIndex]
  apply unbroken_of_le
  rw [hlist]
  intro c hc
  rcases List.mem_cons.mp hc with rfl | hc
  · decide
  · have hdigit := List.all_eq_true.mp (Decimal.isDigits_toDigits n) c hc
    exact (by decide : 33 ≤ 43).trans (Decimal.isTextChar_of_isDigit hdigit).1

theorem Decimal.unbroken_text (d : Decimal) : Unbroken d.text := by
  apply unbroken_of_le
  rw [text, String.toList_ofList]
  exact fun c hc => (by decide : 33 ≤ 43).trans (d.all_isTextChar c hc).1

theorem Text.hexBytes_eq (bs : List UInt8) : hexBytes bs = String.ofList (Numeral.hexPairs bs) := by
  have hdigits : ∀ n < 256, hexDigits 2 n = [Nat.digitChar (n / 16), Nat.digitChar (n % 16)] := by
    decide +kernel
  rw [hexBytes, Numeral.hexPairs]
  congr 1
  exact List.flatMap_congr fun b _ => hdigits b.toNat b.toNat_lt

theorem Text.unbroken_hexBytes (bs : List UInt8) : Unbroken (hexBytes bs) := by
  have hdigits : ∀ n < 16, 33 ≤ (Nat.digitChar n).toNat := by decide
  apply unbroken_of_le
  rw [hexBytes_eq, String.toList_ofList, Numeral.hexPairs]
  intro c hc
  obtain ⟨b, -, hc⟩ := List.mem_flatMap.mp hc
  have hb := b.toNat_lt
  rcases (by simpa using hc : c = _ ∨ c = _) with rfl | rfl
  · exact hdigits _ (by omega)
  · exact hdigits _ (by omega)

theorem Text.hexBytes_injective : Function.Injective hexBytes := by
  intro bs bs' h
  rw [hexBytes_eq, hexBytes_eq] at h
  rw [← Numeral.bytePairs_hexPairs bs, String.ofList_injective h, Numeral.bytePairs_hexPairs]

namespace Payload

inductive InForm : ScalarKind → Payload → Prop
  | uint {n : ℤ} : (Payload.int n).HasText → InForm .uint (.int n)
  | int {n : ℤ} : (Payload.int n).HasText → InForm .int (.int n)
  | decimal (d : Decimal) : InForm .decimal (.decimal d)
  | bytes (bs : List UInt8) : InForm .bytes (.bytes bs)

variable {kind : ScalarKind} {p q : Payload}

theorem listed_int {n : ℤ} (h : (int n).HasText) :
    (int n).listed = some (Decimal.ofInt n).text := by
  rw [Decimal.text_ofInt]
  exact integerText_of_lt h

theorem InForm.listed (h : InForm kind p) : ∃ s, p.listed = some s ∧ Unbroken s := by
  cases h with
  | uint htext | int htext => exact ⟨_, listed_int htext, Decimal.unbroken_text _⟩
  | decimal d => exact ⟨_, rfl, d.unbroken_text⟩
  | bytes bs => exact ⟨_, rfl, unbroken_hexBytes bs⟩

theorem InForm.eq_of_listed (hp : InForm kind p) (hq : InForm kind q) (h : p.listed = q.listed) :
    p = q := by
  have hint : ∀ {m n : ℤ}, (Payload.int m).HasText → (Payload.int n).HasText →
      (Payload.int m).listed = (Payload.int n).listed → Payload.int m = Payload.int n := by
    intro m n hm hn h
    rw [listed_int hm, listed_int hn] at h
    rw [Decimal.ofInt_injective (Decimal.text_injective (Option.some.inj h))]
  cases hp with
  | uint hm =>
    cases hq with
    | uint hn => exact hint hm hn h
  | int hm =>
    cases hq with
    | int hn => exact hint hm hn h
  | decimal d =>
    cases hq with
    | decimal d' => rw [Decimal.text_injective (Option.some.inj h)]
  | bytes bs =>
    cases hq with
    | bytes bs' => rw [hexBytes_injective (Option.some.inj h)]

end Payload

theorem ScalarType.plain_layoutBounds {ty : ScalarType} (h : ty ∈ table) :
    (∃ s, ty.layoutBounds.lower.plain = some s ∧ Unbroken s) ∧
      ∃ s, ty.layoutBounds.upper.plain = some s ∧ Unbroken s := by
  have hshort : ∀ ty ∈ table,
      ty.layoutBounds.lower.HasText ∧ ty.layoutBounds.upper.HasText := by decide +kernel
  obtain ⟨hlower, hupper⟩ := hshort ty h
  have hint : ∀ {n : ℤ}, (Payload.int n).HasText →
      ∃ s, (Payload.int n).plain = some s ∧ Unbroken s := fun hn => (Payload.InForm.int hn).listed
  have hdecimal : ∀ d : Decimal, ∃ s, (Payload.decimal d).plain = some s ∧ Unbroken s :=
    fun d => ⟨_, rfl, d.unbroken_text⟩
  cases hk : ty.kind with
  | uint | int | bytes =>
    simp only [layoutBounds, hk] at hlower hupper ⊢
    exact ⟨hint hlower, hint hupper⟩
  | decimal =>
    simp only [layoutBounds, hk]
    exact ⟨hdecimal _, hdecimal _⟩

namespace Node

/-- The words of a node's line; what has no text would leave its place empty. -/
def words : Node → List String
  | const dest ty value => [dest, "=", "const", ty.name, value.listed.getD ""]
  | loadParam dest name ty => [dest, "=", "param", ty.name, name]
  | convert dest src fromTy toTy mode =>
    [dest, "=", "convert." ++ mode.name, src, ":", fromTy.name, "->", toTy.name]
  | binary dest op left right ty => [dest, "=", op.name, ty.name, left ++ ",", right]
  | clamp dest src lower upper ty abort =>
    [dest, "=", "clamp", ty.name, src, "[" ++ lower.plain.getD "" ++ ",",
      upper.plain.getD "" ++ "]", "abort", abort.name]
  | zeroCheck src ty abort => ["check_nonzero", ty.name, src, "abort", abort.name]
  | ret none => ["return"]
  | ret (some value) => ["return", value]
  | node => ["<unknown", "node", node.kindName ++ ">"]

def text (node : Node) : String := " ".intercalate ("" :: "" :: node.words)

variable {x y : Node}

/-- Nodes whose lines tell them apart. -/
inductive Listable : Node → Prop
  | const {dest : ValueId} {ty : ScalarType} {value : Payload} :
      Unbroken dest → ty ∈ ScalarType.table → Payload.InForm ty.kind value →
      Listable (.const dest ty value)
  | loadParam {dest : ValueId} {name : String} {ty : ScalarType} :
      Unbroken dest → Unbroken name → ty ∈ ScalarType.table → Listable (.loadParam dest name ty)
  | convert {dest src : ValueId} {fromTy toTy : ScalarType} (mode : ConvertMode) :
      Unbroken dest → Unbroken src → fromTy ∈ ScalarType.table → toTy ∈ ScalarType.table →
      Listable (.convert dest src fromTy toTy mode)
  | binary {dest left right : ValueId} {ty : ScalarType} (op : ArithOp) :
      Unbroken dest → Unbroken left → Unbroken right → ty ∈ ScalarType.table →
      Listable (.binary dest op left right ty)
  | clamp {dest src : ValueId} {ty : ScalarType} {range : Bounds} :
      Unbroken dest → Unbroken src → ty ∈ ScalarType.table → ty.bounds = .ok range →
      Listable (.clampTo dest src ty range)
  | zeroCheck {src : ValueId} {ty : ScalarType} :
      Unbroken src → ty ∈ ScalarType.table → Listable (.zeroCheck src ty .divisionByZero)
  | bareReturn : Listable (.ret none)
  | valueReturn {id : ValueId} : Unbroken id → Listable (.ret (some id))

theorem Listable.unbroken (h : x.Listable) : ∀ w ∈ x.words, Unbroken w := by
  have hname : ∀ {ty : ScalarType}, ty ∈ ScalarType.table → Unbroken ty.name :=
    fun hty => ScalarType.unbroken_name _ hty
  have hconvert : Unbroken "convert." := by decide
  have hcomma : Unbroken "," := by decide
  cases h with
  | const hdest hty hvalue =>
    obtain ⟨s, hs, hunbroken⟩ := hvalue.listed
    simp only [words, hs, Option.getD_some, List.forall_mem_cons]
    exact ⟨hdest, by decide, by decide, hname hty, hunbroken, by simp⟩
  | loadParam hdest hparam hty =>
    simp only [words, List.forall_mem_cons]
    exact ⟨hdest, by decide, by decide, hname hty, hparam, by simp⟩
  | convert mode hdest hsrc hfrom hto =>
    simp only [words, List.forall_mem_cons]
    exact ⟨hdest, by decide, unbroken_append.mpr ⟨hconvert, mode.unbroken_name⟩, hsrc, by decide,
      hname hfrom, by decide, hname hto, by simp⟩
  | binary op hdest hleft hright hty =>
    simp only [words, List.forall_mem_cons]
    exact ⟨hdest, by decide, op.unbroken_name, hname hty, unbroken_append.mpr ⟨hleft, hcomma⟩,
      hright, by simp⟩
  | @clamp dest src ty range hdest hsrc hty hrange =>
    obtain rfl := ScalarType.layoutBounds_eq hty hrange
    obtain ⟨⟨lower, hl, hlower⟩, ⟨upper, hu, hupper⟩⟩ := ScalarType.plain_layoutBounds hty
    have hfrom : Unbroken ("[" ++ lower ++ ",") :=
      unbroken_append.mpr ⟨unbroken_append.mpr ⟨by decide, hlower⟩, hcomma⟩
    have hto : Unbroken (upper ++ "]") := unbroken_append.mpr ⟨hupper, by decide⟩
    simp only [words, hl, hu, Option.getD_some, List.forall_mem_cons]
    exact ⟨hdest, by decide, by decide, hname hty, hsrc, hfrom, hto, by decide, by decide, by simp⟩
  | zeroCheck hsrc hty =>
    simp only [words, List.forall_mem_cons]
    exact ⟨by decide, hname hty, hsrc, by decide, by decide, by simp⟩
  | bareReturn => decide
  | valueReturn hid =>
    simp only [words, List.forall_mem_cons]
    exact ⟨by decide, hid, by simp⟩

theorem Listable.eq_of_words (hx : x.Listable) (hy : y.Listable) (h : x.words = y.words) :
    x = y := by
  -- the number of words and the third word tell the form of the node, but for a check, whose
  -- second word is the name of a type and no equality sign
  have hsecond : ∀ {ty : ScalarType}, ty ∈ ScalarType.table → ty.name ≠ "=" :=
    fun hty => ScalarType.name_ne_equals _ hty
  cases hx with
  | @const dest ty value _ hty hvalue =>
    cases hy with
    | @const dest' ty' value' _ hty' hvalue' =>
      simp only [words, List.cons.injEq, and_true, true_and] at h
      obtain ⟨rfl, hname, hlisted⟩ := h
      obtain rfl := ScalarType.eq_of_name_eq hty hty' hname
      obtain ⟨s, hs, -⟩ := hvalue.listed
      obtain ⟨s', hs', -⟩ := hvalue'.listed
      obtain rfl : s = s' := by simpa [hs, hs'] using hlisted
      rw [hvalue.eq_of_listed hvalue' (hs.trans hs'.symm)]
    | zeroCheck _ hty' => simp [words, (hsecond hty').symm] at h
    | _ => simp [words] at h
  | loadParam _ _ hty =>
    cases hy with
    | loadParam _ _ hty' =>
      simp only [words, List.cons.injEq, and_true, true_and] at h
      obtain ⟨rfl, hname, rfl⟩ := h
      rw [ScalarType.eq_of_name_eq hty hty' hname]
    | zeroCheck _ hty' => simp [words, (hsecond hty').symm] at h
    | _ => simp [words] at h
  | convert mode _ _ hfrom hto =>
    cases hy with
    | convert mode' _ _ hfrom' hto' =>
      simp only [words, List.cons.injEq, and_true, true_and, String.append_right_inj] at h
      obtain ⟨rfl, hmode, rfl, hfromName, htoName⟩ := h
      rw [ConvertMode.name_injective hmode, ScalarType.eq_of_name_eq hfrom hfrom' hfromName,
        ScalarType.eq_of_name_eq hto hto' htoName]
    | _ => simp [words] at h
  | binary op _ _ _ hty =>
    cases hy with
    | binary op' _ _ _ hty' =>
      simp only [words, List.cons.injEq, and_true, true_and, String.append_left_inj] at h
      obtain ⟨rfl, hop, hname, rfl, rfl⟩ := h
      rw [ArithOp.name_injective hop, ScalarType.eq_of_name_eq hty hty' hname]
    | _ => simp [words] at h
  | @clamp dest src ty range _ _ hty hrange =>
    cases hy with
    | @clamp dest' src' ty' range' _ _ hty' hrange' =>
      simp only [words, List.cons.injEq, and_true, true_and] at h
      obtain ⟨rfl, hname, rfl, -⟩ := h
      obtain rfl := ScalarType.eq_of_name_eq hty hty' hname
      obtain rfl : range = range' := Except.ok.inj (hrange.symm.trans hrange')
      rfl
    | _ => simp [words] at h
  | zeroCheck _ hty =>
    cases hy with
    | const _ _ _ | loadParam _ _ _ => simp [words, hsecond hty] at h
    | zeroCheck _ hty' =>
      simp only [words, List.cons.injEq, and_true, true_and] at h
      obtain ⟨hname, rfl⟩ := h
      rw [ScalarType.eq_of_name_eq hty hty' hname]
    | _ => simp [words] at h
  | bareReturn =>
    cases hy with
    | bareReturn => rfl
    | _ => simp [words] at h
  | valueReturn _ =>
    cases hy with
    | valueReturn _ =>
      simp only [words, List.cons.injEq, and_true, true_and] at h
      rw [h]
    | _ => simp [words] at h

theorem Listable.line_eq (h : x.Listable) : x.line = some x.text := by
  -- the equations of `line` take long to state, so its cases are opened as they stand
  delta line
  cases h with
  | const _ _ hvalue =>
    obtain ⟨s, hs, -⟩ := hvalue.listed
    simp [text, words, hs, ← String.toList_inj]
  | @clamp dest src ty range _ _ hty hrange =>
    obtain rfl := ScalarType.layoutBounds_eq hty hrange
    obtain ⟨⟨lower, hl, -⟩, ⟨upper, hu, -⟩⟩ := ScalarType.plain_layoutBounds hty
    simp [text, words, hl, hu, ← String.toList_inj]
  | _ => simp [text, words, ← String.toList_inj]

theorem Listable.unbroken_indented (h : x.Listable) : ∀ w ∈ "" :: "" :: x.words, Unbroken w := by
  simp only [List.forall_mem_cons]
  exact ⟨by decide, by decide, h.unbroken⟩

theorem Listable.eq_of_text (hx : x.Listable) (hy : y.Listable) (h : x.text = y.text) : x = y := by
  have heq := intercalate_inj (c := ' ') rfl (List.cons_ne_nil _ _) (List.cons_ne_nil _ _)
    (fun w hw => (hx.unbroken_indented w hw).1) (fun w hw => (hy.unbroken_indented w hw).1) h
  exact hx.eq_of_words hy (List.cons.inj (List.cons.inj heq).2).2

theorem Listable.unbroken_text (h : x.Listable) : '\n' ∉ x.text.toList :=
  not_mem_intercalate (by decide) fun w hw => (h.unbroken_indented w hw).2

end Node

namespace CompiledFunction

variable {f g : CompiledFunction}

structure Listable (f : CompiledFunction) : Prop where
  name : Unbroken f.name
  nodes : ∀ node ∈ f.nodes, node.Listable

def texts (f : CompiledFunction) : List String := ("fn " ++ f.name ++ ":") :: f.nodes.map Node.text

theorem mapM_line {nodes : List Node} (h : ∀ node ∈ nodes, node.Listable) :
    nodes.mapM Node.line = some (nodes.map Node.text) := by
  induction nodes with
  | nil => rfl
  | cons node nodes ih =>
    obtain ⟨hnode, hnodes⟩ := List.forall_mem_cons.mp h
    simp [hnode.line_eq, ih hnodes]

theorem Listable.listing_eq (h : f.Listable) : f.listing = some ("\n".intercalate f.texts) := by
  simp [listing, lines, mapM_line h.nodes, texts]

theorem Listable.unbroken_texts (h : f.Listable) : ∀ line ∈ f.texts, '\n' ∉ line.toList := by
  intro line hline
  rcases List.mem_cons.mp hline with rfl | hline
  · simpa using h.name.2
  · obtain ⟨node, hnode, rfl⟩ := List.mem_map.mp hline
    exact (h.nodes node hnode).unbroken_text

theorem eq_of_texts {xs ys : List Node} (hxs : ∀ x ∈ xs, x.Listable) (hys : ∀ y ∈ ys, y.Listable)
    (h : xs.map Node.text = ys.map Node.text) : xs = ys := by
  induction xs generalizing ys with
  | nil => exact (List.map_eq_nil_iff.mp h.symm).symm
  | cons x xs ih =>
    cases ys with
    | nil => cases h
    | cons y ys =>
      obtain ⟨hx, hxs⟩ := List.forall_mem_cons.mp hxs
      obtain ⟨hy, hys⟩ := List.forall_mem_cons.mp hys
      obtain ⟨htext, htexts⟩ := List.cons.inj h
      rw [hx.eq_of_text hy htext, ih hxs hys htexts]

theorem Listable.eq_of_listing (hf : f.Listable) (hg : g.Listable)
    (h : f.listing = g.listing) : f = g := by
  rw [hf.listing_eq, hg.listing_eq] at h
  have htexts : f.texts = g.texts := intercalate_inj (c := '\n') rfl (List.cons_ne_nil _ _)
    (List.cons_ne_nil _ _) hf.unbroken_texts hg.unbroken_texts (Option.some.inj h)
  obtain ⟨hheading, hnodes⟩ := List.cons.inj htexts
  have hname : f.name = g.name := by
    rwa [String.append_left_inj, String.append_right_inj] at hheading
  obtain ⟨name, nodes⟩ := f
  obtain ⟨name', nodes'⟩ := g
  obtain rfl : name = name' := hname
  obtain rfl : nodes = nodes' := eq_of_texts hf.nodes hg.nodes hnodes
  rfl

end CompiledFunction

end ContractGuard
