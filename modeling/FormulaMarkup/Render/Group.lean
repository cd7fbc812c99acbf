import FormulaMarkup.Render.Command

/-!
How lists of nodes are drawn. The nodes of a group stand one behind the other. A style switch wraps
all that follows it, and a font command sets the font of all that follows it, both up to the end of
the group and no further. A skewed node is drawn as if what it holds were a group with a space at
its end.
-/
namespace FormulaMarkup.Draw

def groupRow (children : List Element) : Element := Element.holding "mrow" children

def nothing : Inner where
  count := 0
  startsWithLimit := false
  all := fun _ => []
  each := fun _ => []
  spaced := fun _ _ => []

mutual

def node (ctx : Context) : Node → Drawing
  | ⟨token, none, delimiter, alignment, text, attributes, modifier⟩ =>
    drawing ctx ⟨token, none, delimiter, alignment, text, attributes, modifier⟩ nothing
  | ⟨token, some children, delimiter, alignment, text, attributes, modifier⟩ =>
    drawing ctx ⟨token, some children, delimiter, alignment, text, attributes, modifier⟩
      { count := children.length
        startsWithLimit := children.head?.any isLimit
        all := fun ctx => group ctx [] children
        each := fun ctx => each ctx children
        spaced := fun ctx space => spacedHead ctx space children }

/-- The elements for a list of nodes, with elements that stand behind all they are drawn as. -/
def group (ctx : Context) (behind : List Element) : List Node → List Element
  | [] => behind
  | first :: rest =>
    match node ctx first with
    | .elements list => list ++ group ctx behind rest
    | .font font => group { ctx with font } behind rest
    | .wrapper attributes =>
      let scope := Element.shell "mstyle" attributes
      [scope.appendChildren (group (ctx.within scope) behind rest)]

/-- The tokens of a list of nodes, each with the elements for the node by itself. -/
def each (ctx : Context) : List Node → List Table.Item
  | [] => []
  | first :: rest => (first.token, (node ctx first).before []) :: each ctx rest

def spacedHead (ctx : Context) (space : Element) : List Node → List Element
  | [] => []
  | first :: _ => spacedNode ctx space first

/-- A skewed node: what it holds is one group, with a space behind all that was in the node. -/
def spacedNode (ctx : Context) (space : Element) : Node → List Element
  | ⟨token, none, delimiter, alignment, text, attributes, modifier⟩ =>
    let leaf : Node := ⟨token, none, delimiter, alignment, text, attributes, modifier⟩
    [groupRow ((drawing (ctx.within (groupRow [])) leaf nothing).before [space])]
  | ⟨token, some children, delimiter, alignment, text, attributes, modifier⟩ =>
    let held (ctx : Context) (behind : List Element) : Element :=
      groupRow (group (ctx.within (groupRow [])) behind children)
    (drawing ctx ⟨token, some children, delimiter, alignment, text, attributes, modifier⟩
      { count := 1
        startsWithLimit := false
        all := fun ctx => [held ctx [space]]
        each := fun ctx => [(Word.braces, [held ctx [space]])]
        spaced := fun ctx further => [groupRow [held ctx [space, further]]] }).before []

end

end FormulaMarkup.Draw
