import FormulaMarkup.Proofs.Parsing.Attributes
import FormulaMarkup.Proofs.Render.Traversal

/-!
What boxes count for. A node is drawn from what its children are drawn as, and the formulas in boxes
count only for the nodes whose text holds them. So two ways to draw formulas draw the same nodes in
the same way if they do so for the formulas that these nodes hold. The formulas in a text are shorter
than the text.
-/
namespace FormulaMarkup

namespace Box

theorem mem_part {mode kind : Mode} {reversed : List Char} {text : String}
    (mem : (kind, text) ∈ part mode reversed) : kind = mode ∧ text.length = reversed.length := by
  unfold part at mem
  split at mem
  · cases mem
  · obtain ⟨rfl, rfl⟩ := Prod.mk.inj (List.mem_singleton.mp mem)
    exact ⟨rfl, by simp⟩

/-- A part is no longer than what it is read from; a part in the other mode leaves out a dollar
sign. -/
theorem length_part_le (mode : Mode) (reversed rest : List Char) {kind : Mode} {text : String}
    (mem : (kind, text) ∈ partsFrom mode reversed rest) :
    text.length ≤ reversed.length + rest.length ∧
      (kind ≠ mode → text.length < reversed.length + rest.length) := by
  fun_induction partsFrom mode reversed rest with
  | case1 mode reversed =>
    obtain ⟨same, length⟩ := mem_part mem
    exact ⟨by omega, fun other => absurd same other⟩
  | case2 mode reversed rest ih =>
    obtain ⟨most, less⟩ := ih mem
    have kept : (if mode = .math then '\\' :: reversed else reversed).length ≤ reversed.length + 1 := by
      split
      · exact Nat.le_refl _
      · exact Nat.le_succ _
    simp only [List.length_cons] at most less ⊢
    exact ⟨by omega, fun other => by have := less other; omega⟩
  | case3 mode reversed rest ih =>
    simp only [List.length_cons]
    rcases List.mem_append.mp mem with mem | mem
    · obtain ⟨same, length⟩ := mem_part mem
      exact ⟨by omega, fun other => absurd same other⟩
    · have most := (ih mem).1
      simp only [List.length_nil] at most
      exact ⟨by omega, fun _ => by omega⟩
  | case4 mode reversed c rest _ _ ih =>
    obtain ⟨most, less⟩ := ih mem
    simp only [List.length_cons] at most less ⊢
    exact ⟨by omega, fun other => by have := less other; omega⟩

/-- A formula in a text is shorter than the text. -/
theorem length_math_lt {text part : String} (mem : (.math, part) ∈ parts text) :
    part.length < text.length := by
  have less := (length_part_le .text [] text.toList mem).2 (by decide)
  rwa [List.length_nil, Nat.zero_add, String.length_toList] at less

end Box

/-- A context in which formulas in boxes are drawn in a given way. -/
def Context.boxing (ctx : Context) (boxed : String → Option (List Element)) : Context :=
  { ctx with boxed }

@[simp] theorem Context.symbols_boxing (ctx : Context) (boxed : String → Option (List Element)) :
    (ctx.boxing boxed).symbols = ctx.symbols := rfl

@[simp] theorem Context.within_boxing (ctx : Context) (boxed : String → Option (List Element))
    (e : Element) : (ctx.boxing boxed).within e = (ctx.within e).boxing boxed := rfl

namespace Draw

variable {node : Node} {boxed boxed' : String → Option (List Element)}

/-- Two ways to draw formulas that do the same for those in the text of a node. -/
def SameBoxes (boxed boxed' : String → Option (List Element)) (node : Node) : Prop :=
  node.token = "\\hbox" → ∀ text ∈ node.text, ∀ part, (.math, part) ∈ Box.parts text →
    boxed part = boxed' part

/-- What the children of a node are drawn as is the same, as far as the node asks for it. -/
structure SameInner (boxed boxed' : String → Option (List Element)) (node : Node)
    (inner inner' : Inner) : Prop where
  told : inner.toHeld = inner'.toHeld
  all : ∀ ctx : Context, inner.all (ctx.boxing boxed) = inner'.all (ctx.boxing boxed')
  each : ∀ ctx : Context, inner.each (ctx.boxing boxed) = inner'.each (ctx.boxing boxed')
  spaced : node.token = "\\skew" → ∀ ctx : Context,
    inner.spaced (ctx.boxing boxed) (skewSpace node) = inner'.spaced (ctx.boxing boxed') (skewSpace node)

section

variable {inner inner' : Inner} (same : SameInner boxed boxed' node inner inner') (ctx : Context)

include same

theorem shell_same (style : Style) : shell node style inner = shell node style inner' := by
  unfold shell
  rw [same.told]

theorem filled_same (e : Element) :
    filled (ctx.boxing boxed) node inner e = filled (ctx.boxing boxed') node inner' e := by
  unfold filled
  simp only [Context.within_boxing, same.all, same.each]
  by_cases skew : node.token = "\\skew"
  · rw [same.spaced skew]
  · have other : (node.token == "\\skew") = false := by simpa using skew
    simp only [other, Bool.false_eq_true, if_false]

theorem body_same (style : Style) :
    body (ctx.boxing boxed) node style inner = body (ctx.boxing boxed') node style inner' := by
  have label (e : Element) : labelled (ctx.boxing boxed) node style e =
      labelled (ctx.boxing boxed') node style e := rfl
  unfold body
  simp only [shell_same same, label, same.all, filled_same same]

variable (boxes : SameBoxes boxed boxed' node)

include boxes

theorem content_same (style : Style) :
    content (ctx.boxing boxed) node style inner = content (ctx.boxing boxed') node style inner' := by
  unfold content
  split
  · rename_i text given
    split at given
    · rename_i hbox
      rw [shell_same same]
      refine List.map_congr_left ?_
      rintro ⟨kind, part⟩ mem
      cases kind with
      | text => rfl
      | math =>
        have drawn : boxed part = boxed' part := boxes (beq_iff_eq.mp hbox) text given part mem
        simp only [Context.boxing, if_true, drawn]
    · cases given
  · rw [body_same same]
    rfl

theorem command_same (style : Style) :
    command (ctx.boxing boxed) node style inner = command (ctx.boxing boxed') node style inner' := by
  unfold command inScope
  simp only [Context.symbols_boxing, Context.within_boxing, content_same same _ boxes]

/-- A node is drawn in the same way if what it asks for is. -/
theorem drawing_same :
    drawing (ctx.boxing boxed) node inner = drawing (ctx.boxing boxed') node inner' := by
  unfold drawing
  split
  · rfl
  split
  · exact congrArg Drawing.elements (command_same same ctx boxes _)
  split
  · rename_i font _
    exact congrArg Drawing.elements (same.all { ctx with font })
  split
  · exact congrArg Drawing.elements (same.all ctx)
  split
  · rfl
  split
  · rfl
  · let row := Element.shell "mrow" node.attributes
    exact congrArg (fun list => Drawing.elements [row.appendChildren list]) (same.all (ctx.within row))

end

/-! ## Lists of nodes -/

theorem group_same (ctx : Context) (behind : List Element) {nodes : List Node}
    (all : ∀ node ∈ nodes, ∀ ctx : Context,
      Draw.node (ctx.boxing boxed) node = Draw.node (ctx.boxing boxed') node) :
    group (ctx.boxing boxed) behind nodes = group (ctx.boxing boxed') behind nodes := by
  induction nodes generalizing ctx with
  | nil => rw [group_nil, group_nil]
  | cons first rest ih =>
    obtain ⟨head, tail⟩ := List.forall_mem_cons.mp all
    rw [group_cons, group_cons, head ctx]
    cases Draw.node (ctx.boxing boxed') first with
    | elements list => exact congrArg (list ++ ·) (ih ctx tail)
    | font font => exact ih { ctx with font } tail
    | wrapper attributes =>
      exact congrArg (fun list => [(Element.shell "mstyle" attributes).appendChildren list])
        (ih (ctx.within (Element.shell "mstyle" attributes)) tail)

/-- What the children of a node are drawn as is the same if each of them is. -/
theorem innerOf_same
    (all : ∀ child ∈ node.childList, ∀ ctx : Context,
      Draw.node (ctx.boxing boxed) child = Draw.node (ctx.boxing boxed') child)
    (spaced : ∀ child ∈ node.childList, ∀ (ctx : Context) (space : Element),
      spacedNode (ctx.boxing boxed) space child = spacedNode (ctx.boxing boxed') space child) :
    SameInner boxed boxed' node (innerOf node) (innerOf node) := by
  unfold innerOf
  unfold Node.childList at all spaced
  cases held : node.children with
  | none => exact ⟨rfl, fun _ => rfl, fun _ => rfl, fun _ _ => rfl⟩
  | some children =>
    rw [held] at all spaced
    constructor
    · rfl
    · exact fun ctx => group_same ctx [] all
    · intro ctx
      change each (ctx.boxing boxed) children = each (ctx.boxing boxed') children
      rw [each_eq_map, each_eq_map]
      exact List.map_congr_left fun child mem => by rw [all child mem ctx]
    · intro _ ctx
      cases children with
      | nil => rfl
      | cons first rest =>
        change spacedHead (ctx.boxing boxed) (skewSpace node) (first :: rest) =
          spacedHead (ctx.boxing boxed') (skewSpace node) (first :: rest)
        rw [spacedHead, spacedHead]
        exact spaced first List.mem_cons_self ctx _

theorem heldOf_same {children : List Node} (space : Element)
    (all : ∀ child ∈ children, ∀ ctx : Context,
      Draw.node (ctx.boxing boxed) child = Draw.node (ctx.boxing boxed') child) :
    SameInner boxed boxed' node (heldOf children space) (heldOf children space) := by
  have group (ctx : Context) (behind : List Element) :=
    group_same (ctx.within (groupRow [])) behind all
  constructor
  · rfl
  · exact fun ctx => congrArg (fun list => [groupRow list]) (group ctx [space])
  · exact fun ctx => congrArg (fun list => [(Word.braces, [groupRow list])]) (group ctx [space])
  · exact fun _ ctx => congrArg (fun list => [groupRow [groupRow list]])
      (group ctx [space, skewSpace node])

/-- Two ways to draw formulas draw the same trees in the same way, if they do so for the formulas in
the boxes of these trees. -/
theorem node_same (node : Node) (boxes : node.All (SameBoxes boxed boxed')) :
    (∀ ctx : Context, Draw.node (ctx.boxing boxed) node = Draw.node (ctx.boxing boxed') node) ∧
      ∀ (ctx : Context) (space : Element),
        spacedNode (ctx.boxing boxed) space node = spacedNode (ctx.boxing boxed') space node := by
  induction node using Node.induct with
  | step node ih =>
    obtain ⟨here, below⟩ := Node.all_iff.mp boxes
    have all := fun child mem => (ih child mem (below child mem)).1
    have spaced := fun child mem => (ih child mem (below child mem)).2
    refine ⟨fun ctx => ?_, fun ctx space => ?_⟩
    · rw [node_eq, node_eq]
      exact drawing_same (innerOf_same all spaced) ctx here
    · cases held : node.children with
      | none =>
        have nothing_same : SameInner boxed boxed' node nothing nothing :=
          ⟨rfl, fun _ => rfl, fun _ => rfl, fun _ _ => rfl⟩
        rw [spacedNode_leaf _ _ held, spacedNode_leaf _ _ held]
        simp only [Context.within_boxing, drawing_same nothing_same _ here]
      | some children =>
        have inside : ∀ child ∈ children, ∀ ctx : Context,
            Draw.node (ctx.boxing boxed) child = Draw.node (ctx.boxing boxed') child := by
          simpa [Node.childList, held] using all
        rw [spacedNode_children _ _ held, spacedNode_children _ _ held,
          drawing_same (heldOf_same space inside) ctx here]

end Draw

end FormulaMarkup
