import FormulaMarkup.Proofs.Render.Traversal

/-!
How many elements a list of nodes is drawn as. A node may be drawn as no element or as several, and a
style switch takes all that follows it into one; which it is depends on the tree alone, and neither on
the font nor on what is in boxes.
-/
namespace FormulaMarkup

/-- The room that a drawing takes in a list of elements. -/
inductive Extent where
  | elements (count : Nat)
  | font
  | wrapper
  deriving Repr, DecidableEq

/-- How many elements there are with those that follow. -/
def Extent.before : Extent → Nat → Nat
  | elements count, following => count + following
  | font, following => following
  | wrapper, _ => 1

namespace Drawing

def extent : Drawing → Extent
  | elements list => .elements list.length
  | font _ => .font
  | wrapper _ => .wrapper

end Drawing

namespace Draw

def scopedCommands : List String := [
  "\\substack", "\\smallmatrix", "\\subarray", "\\cases", "\\dbinom", "\\dfrac", "\\hphantom",
  "\\vphantom", "\\tbinom", "\\hbox", "\\mbox", "\\tfrac", "\\left"]

theorem isSome_scope (symbols : SymbolTable) (command : String) :
    (scope? symbols command).isSome = scopedCommands.contains command := by
  unfold scope?
  split
  case h_14 => simp_all [scopedCommands]
  all_goals rfl

/-- How many elements a command is drawn as within its scope, given how many its children are. -/
def contentWidth (node : Node) (width : Nat) : Nat :=
  ((fences? node).bind Fences.opening).toList.length +
    (if isModulus node.token then width + 2 else 1) +
    ((fences? node).bind Fences.closing).toList.length +
    (if node.is "\\skew" then node.attribute? "width" else none).toList.length

/-- How many elements a command is drawn as. -/
def commandWidth (node : Node) (width : Nat) : Nat :=
  (if scopedCommands.contains node.token then 1 else contentWidth node width) +
    if isModulus node.token then 1 else 0

/-- The room that a node takes, given how many elements its children are drawn as. -/
def extent (node : Node) (width : Nat) : Extent :=
  if (Style.switches.lookup node.token).isSome then .wrapper
  else if (Style.of? node.token).isSome then .elements (commandWidth node width)
  else if !node.isLeaf &&
      ((Font.ofArgument.lookup node.token).isSome || Word.begins "\\math" node.token) then
    .elements width
  else if (Font.ofRest.lookup node.token).isSome then .font
  else .elements 1

mutual

/-- The room that a node takes where it stands. -/
def extentOf : Node → Extent
  | ⟨token, none, delimiter, alignment, text, attributes, modifier⟩ =>
    extent ⟨token, none, delimiter, alignment, text, attributes, modifier⟩ 0
  | ⟨token, some children, delimiter, alignment, text, attributes, modifier⟩ =>
    extent ⟨token, some children, delimiter, alignment, text, attributes, modifier⟩
      (widthOf children)

/-- How many elements a list of nodes is drawn as. -/
def widthOf : List Node → Nat
  | [] => 0
  | first :: rest => (extentOf first).before (widthOf rest)

end

/-- A node is none of the tokens of a list that has not its own. -/
theorem is_eq_false {node : Node} {tokens : List String} {token : String}
    (free : tokens.contains node.token = false) (listed : tokens.contains token = true) :
    node.is token = false := by
  cases named : node.is token with
  | false => rfl
  | true =>
    rw [eq_of_beq named, listed] at free
    contradiction

/-- A node is none of the tokens that a list with its own has not. -/
theorem is_eq_false_of_listed {node : Node} {tokens : List String} {token : String}
    (listed : tokens.contains node.token = true) (free : tokens.contains token = false) :
    node.is token = false := by
  cases named : node.is token with
  | false => rfl
  | true =>
    rw [eq_of_beq named, free] at listed
    contradiction

theorem length_fence (symbols : SymbolTable) (size name : Option String) :
    (fence symbols size name).length = name.toList.length := by
  cases name <;> rfl

section

variable (ctx : Context) (node : Node) (inner : Inner) {width : Nat}
  (all : ∀ ctx, (inner.all ctx).length = width)

include all

theorem length_content (style : Style) (free : scopedCommands.contains node.token = false) :
    (content ctx node style inner).length = contentWidth node width := by
  have notBox : node.is "\\hbox" = false := is_eq_false free (by decide)
  have notLeft : node.is "\\left" = false := is_eq_false free (by decide)
  have length : (body ctx node style inner).length =
      if isModulus node.token then width + 2 else 1 := by
    unfold body
    simp only [notLeft, Bool.false_eq_true, if_false]
    split
    · simp [all]
    · rfl
  have kern (width : Option String) :
      (width.map fun width => Glyph.kern (Skew.opposite width)).toList.length =
        width.toList.length := by
    cases width <;> rfl
  unfold content contentWidth
  simp only [notBox, Bool.false_eq_true, if_false, List.length_append, length_fence, length, kern]

theorem length_inScope (style : Style) :
    (inScope ctx node style inner).length =
      if scopedCommands.contains node.token then 1 else contentWidth node width := by
  have around := isSome_scope ctx.symbols node.token
  unfold inScope
  cases found : scope? ctx.symbols node.token with
  | some scope =>
    rw [found] at around
    rw [← around]
    rfl
  | none =>
    rw [found] at around
    rw [← around]
    exact length_content ctx node inner all style around.symm

theorem length_command (style : Style) :
    (command ctx node style inner).length = commandWidth node width := by
  have drawn := length_inScope ctx node inner all style
  unfold command commandWidth
  rw [← drawn]
  split
  · rfl
  · rfl

theorem extent_drawing : (drawing ctx node inner).extent = extent node width := by
  unfold drawing extent
  cases switch : Style.switches.lookup node.token with
  | some attributes => rfl
  | none =>
    cases styled : Style.of? node.token with
    | some style => exact congrArg Extent.elements (length_command ctx node inner all style)
    | none =>
      cases leaf : node.isLeaf with
      | true => 
        cases Font.ofRest.lookup node.token <;> rfl
      | false =>
        cases font : Font.ofArgument.lookup node.token with
        | some font => exact congrArg Extent.elements (all _)
        | none =>
          cases math : Word.begins "\\math" node.token with
          | true => exact congrArg Extent.elements (all _)
          | false => cases Font.ofRest.lookup node.token <;> rfl

end

mutual

theorem extent_node (ctx : Context) : (node : Node) → (Draw.node ctx node).extent = extentOf node
  | ⟨token, none, delimiter, alignment, text, attributes, modifier⟩ => by
    rw [Draw.node, extentOf]
    exact extent_drawing ctx _ nothing fun _ => rfl
  | ⟨token, some children, delimiter, alignment, text, attributes, modifier⟩ => by
    rw [Draw.node, extentOf]
    exact extent_drawing ctx _ _ fun ctx => length_group ctx children

theorem length_group (ctx : Context) :
    (nodes : List Node) → (group ctx [] nodes).length = widthOf nodes
  | [] => by
    rw [group_nil, widthOf]
    rfl
  | first :: rest => by
    have head := extent_node ctx first
    rw [group_cons, widthOf, ← head]
    cases Draw.node ctx first with
    | elements list => exact List.length_append.trans (congrArg _ (length_group ctx rest))
    | font font => exact length_group _ rest
    | wrapper attributes => rfl

end

end Draw

end FormulaMarkup
