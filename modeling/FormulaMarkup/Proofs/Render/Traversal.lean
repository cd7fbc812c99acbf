import FormulaMarkup.Render.Group

/-!
Drawing as a recursion over the nodes: what a node is drawn as is told by its children as they are
handed to it and by the first rule that applies to it, every list of children is drawn node by node,
and the items of a table body come to stand in its cells.
-/
namespace FormulaMarkup

/-! ## Styles -/

namespace Style

/-- An entry that is looked up is one of the table. -/
theorem mem_of_lookup {α : Type} {table : List (String × α)} {name : String} {value : α}
    (found : table.lookup name = some value) : (name, value) ∈ table := by
  obtain ⟨before, after, rfl, _⟩ := List.lookup_eq_some_iff.mp found
  exact List.mem_append_right _ List.mem_cons_self

end Style

/-! ## Nodes -/

namespace Node

mutual

/-- Induction over trees. -/
theorem induct {motive : Node → Prop}
    (step : ∀ node : Node, (∀ child ∈ node.childList, motive child) → motive node) :
    (node : Node) → motive node
  | ⟨_, none, _, _, _, _, _⟩ => step _ nofun
  | ⟨_, some children, _, _, _, _, _⟩ => step _ (induct_all step children)

theorem induct_all {motive : Node → Prop}
    (step : ∀ node : Node, (∀ child ∈ node.childList, motive child) → motive node) :
    (nodes : List Node) → ∀ node ∈ nodes, motive node
  | [] => nofun
  | first :: rest => List.forall_mem_cons.mpr ⟨induct step first, induct_all step rest⟩

end

end Node

namespace Draw

/-- What the children of a node are drawn as where it stands. -/
def innerOf (node : Node) : Inner :=
  match node.children with
  | none => nothing
  | some children =>
    { count := children.length
      startsWithLimit := children.head?.any isLimit
      all := fun ctx => group ctx [] children
      each := fun ctx => each ctx children
      spaced := fun ctx space => spacedHead ctx space children }

/-- What the children of a node are drawn as when the node is skewed: as one group. -/
def heldOf (children : List Node) (space : Element) : Inner :=
  let held (ctx : Context) (behind : List Element) : Element :=
    groupRow (group (ctx.within (groupRow [])) behind children)
  { count := 1
    startsWithLimit := false
    all := fun ctx => [held ctx [space]]
    each := fun ctx => [(Word.braces, [held ctx [space]])]
    spaced := fun ctx further => [groupRow [held ctx [space, further]]] }

theorem node_eq (ctx : Context) (node : Node) : Draw.node ctx node = drawing ctx node (innerOf node) := by
  obtain ⟨token, children, delimiter, alignment, text, attributes, modifier⟩ := node
  cases children with
  | none => rw [Draw.node]; rfl
  | some children => rw [Draw.node]; rfl

theorem spacedNode_leaf (ctx : Context) (space : Element) {node : Node} (leaf : node.children = none) :
    spacedNode ctx space node =
      [groupRow ((drawing (ctx.within (groupRow [])) node nothing).before [space])] := by
  obtain ⟨token, children, delimiter, alignment, text, attributes, modifier⟩ := node
  obtain rfl : children = none := leaf
  rw [spacedNode]

theorem spacedNode_children (ctx : Context) (space : Element) {node : Node} {children : List Node}
    (held : node.children = some children) :
    spacedNode ctx space node = (drawing ctx node (heldOf children space)).before [] := by
  obtain ⟨token, children', delimiter, alignment, text, attributes, modifier⟩ := node
  obtain rfl : children' = some children := held
  rw [spacedNode]
  rfl

theorem group_nil (ctx : Context) (behind : List Element) : group ctx behind [] = behind := by
  rw [group]

theorem group_cons (ctx : Context) (behind : List Element) (first : Node) (rest : List Node) :
    group ctx behind (first :: rest) =
      match Draw.node ctx first with
      | .elements list => list ++ group ctx behind rest
      | .font font => group { ctx with font } behind rest
      | .wrapper attributes =>
        let scope := Element.shell "mstyle" attributes
        [scope.appendChildren (group (ctx.within scope) behind rest)] :=
  (group.eq_2 ctx behind first rest).trans (by cases Draw.node ctx first <;> rfl)

theorem each_eq_map (ctx : Context) (nodes : List Node) :
    each ctx nodes = nodes.map fun node => (node.token, (Draw.node ctx node).before []) := by
  induction nodes with
  | nil => rw [each]; rfl
  | cons first rest ih => rw [each, ih]; rfl

/-- The rules by which a node is drawn, each with what keeps the rules before it from applying. -/
inductive Rule (ctx : Context) (node : Node) (inner : Inner) : Drawing → Prop where
  | switch {attributes : Attributes} (named : Style.switches.lookup node.token = some attributes) :
      Rule ctx node inner (.wrapper attributes)
  | command {style : Style} (unswitched : Style.switches.lookup node.token = none)
      (named : Style.of? node.token = some style) :
      Rule ctx node inner (.elements (command ctx node style inner))
  | fontGroup {font : Font} (unswitched : Style.switches.lookup node.token = none)
      (unstyled : Style.of? node.token = none) (held : node.isLeaf = false)
      (named : Font.ofArgument.lookup node.token = some font) :
      Rule ctx node inner (.elements (inner.all { ctx with font }))
  | mathGroup (unswitched : Style.switches.lookup node.token = none)
      (unstyled : Style.of? node.token = none) (held : node.isLeaf = false)
      (noArgument : Font.ofArgument.lookup node.token = none)
      (named : Word.begins "\\math" node.token = true) :
      Rule ctx node inner (.elements (inner.all ctx))
  | font {font : Font} (unswitched : Style.switches.lookup node.token = none)
      (unstyled : Style.of? node.token = none)
      (noArgument : node.isLeaf = false → Font.ofArgument.lookup node.token = none)
      (named : Font.ofRest.lookup node.token = some font) :
      Rule ctx node inner (.font font)
  | glyph (unswitched : Style.switches.lookup node.token = none)
      (unstyled : Style.of? node.token = none) (leaf : node.isLeaf = true)
      (noFont : Font.ofRest.lookup node.token = none) :
      Rule ctx node inner (.elements [Glyph.draw ctx.symbols ctx.font node])
  | row (unswitched : Style.switches.lookup node.token = none)
      (unstyled : Style.of? node.token = none) (held : node.isLeaf = false)
      (noArgument : Font.ofArgument.lookup node.token = none)
      (noMath : Word.begins "\\math" node.token = false)
      (noFont : Font.ofRest.lookup node.token = none) :
      Rule ctx node inner (.elements [(Element.shell "mrow" node.attributes).appendChildren
        (inner.all (ctx.within (Element.shell "mrow" node.attributes)))])

/-- Every node is drawn by one of the rules. -/
theorem drawing_rule (ctx : Context) (node : Node) (inner : Inner) :
    Rule ctx node inner (drawing ctx node inner) := by
  unfold drawing
  cases unswitched : Style.switches.lookup node.token with
  | some attributes => exact .switch unswitched
  | none =>
    cases unstyled : Style.of? node.token with
    | some style => exact .command unswitched unstyled
    | none =>
      dsimp only
      cases held : node.isLeaf with
      | true =>
        simp only [if_true, Bool.not_true, Bool.false_and, Bool.false_eq_true, if_false]
        cases noFont : Font.ofRest.lookup node.token with
        | some font => exact .font unswitched unstyled (fun other => absurd (held.symm.trans other) nofun) noFont
        | none => exact .glyph unswitched unstyled held noFont
      | false =>
        simp only [Bool.false_eq_true, if_false, Bool.not_false, Bool.true_and]
        cases noArgument : Font.ofArgument.lookup node.token with
        | some font => exact .fontGroup unswitched unstyled held noArgument
        | none =>
          cases noMath : Word.begins "\\math" node.token with
          | true => exact .mathGroup unswitched unstyled held noArgument noMath
          | false =>
            cases noFont : Font.ofRest.lookup node.token with
            | some font => exact .font unswitched unstyled (fun _ => noArgument) noFont
            | none => exact .row unswitched unstyled held noArgument noMath noFont

end Draw

/-! ## Table bodies -/

namespace Table

theorem flatten_splitOnP {α : Type} (p : α → Bool) (items : List α) :
    (items.splitOnP p).flatten = items.filter (!p ·) := by
  induction items with
  | nil => rfl
  | cons first rest ih =>
    rw [List.splitOnP_cons_eq_if_modifyHead]
    cases ends : p first with
    | true => simp [ends, ih]
    | false =>
      obtain ⟨part, parts, split⟩ := List.exists_cons_of_ne_nil (List.splitOnP_ne_nil p rest)
      rw [split] at ih
      simpa [ends, split] using ih

theorem mem_part {α : Type} (p : α → Bool) {items : List α} {item : α} :
    (∃ part ∈ items.splitOnP p, item ∈ part) ↔ item ∈ items ∧ p item = false := by
  rw [← List.mem_flatten, flatten_splitOnP, List.mem_filter, Bool.not_eq_true']

/-- The items in the cells of a body are those that end neither a cell nor a row. -/
theorem mem_cells {body : List Item} {item : Item} :
    (∃ cells ∈ rowsOf body, ∃ items ∈ cells, item ∈ items) ↔
      item ∈ body ∧ item.role ≠ .rowEnd ∧ item.role ≠ .cellEnd := by
  unfold rowsOf
  split
  · rename_i empty
    simp [List.isEmpty_iff.mp empty]
  · constructor
    · rintro ⟨cells, mem, items, inRow, inCell⟩
      obtain ⟨line, inBody, rfl⟩ := List.mem_map.mp mem
      obtain ⟨inLine, notCell⟩ := (mem_part _).mp ⟨items, inRow, inCell⟩
      obtain ⟨here, notRow⟩ := (mem_part _).mp ⟨line, inBody, inLine⟩
      exact ⟨here, of_decide_eq_false notRow, of_decide_eq_false notCell⟩
    · rintro ⟨here, notRow, notCell⟩
      obtain ⟨line, inBody, inLine⟩ :=
        (mem_part fun item : Item => item.role = .rowEnd).mpr ⟨here, decide_eq_false notRow⟩
      obtain ⟨items, inRow, inCell⟩ :=
        (mem_part fun item : Item => item.role = .cellEnd).mpr ⟨inLine, decide_eq_false notCell⟩
      exact ⟨_, List.mem_map_of_mem inBody, items, inRow, inCell⟩

end Table

end FormulaMarkup
