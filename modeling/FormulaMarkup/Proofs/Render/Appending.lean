import FormulaMarkup.Proofs.Render.Traversal
import FormulaMarkup.Render.Source
import Mathlib.Data.List.Forall2

/-!
Drawing as writing. The nodes of a group are written one by one into an element that is there already:
a command writes into that element or into a scope that it puts there, a font command changes the pen
for the rest of the group, and a style switch goes on in an element of its own. Main statement: what
is written is what the nodes are drawn as, put behind the children that the element has.
-/
namespace FormulaMarkup

namespace Element

section

variable (e : Element) (front back : List Element) (child : Element)

@[simp] theorem appendChildren_nil : e.appendChildren [] = e := by
  obtain ⟨tag, attributes, text, children⟩ := e
  exact congrArg (Element.mk tag attributes text) (List.append_nil children)

@[simp] theorem appendChildren_appendChildren :
    (e.appendChildren front).appendChildren back = e.appendChildren (front ++ back) := by
  rw [appendChildren, appendChildren, appendChildren, List.append_assoc]

theorem appendChild_eq : e.appendChild child = e.appendChildren [child] := rfl

end

/-- Elements that are put into an element one by one. -/
theorem foldl_appendChild {α : Type} (f : α → Element) (items : List α) (e : Element) :
    items.foldl (fun e item => e.appendChild (f item)) e = e.appendChildren (items.map f) := by
  induction items generalizing e with
  | nil => exact (appendChildren_nil e).symm
  | cons first rest ih =>
    rw [List.foldl_cons, ih, appendChild_eq, appendChildren_appendChildren]
    rfl

end Element

namespace Draw

/-! ## Pens -/

/-- What nodes are written with. -/
structure Pen where
  symbols : SymbolTable
  font : Font
  /-- What a formula in the text of a box is drawn as; nothing if it is wrong. -/
  boxed : String → Option (List Element)

namespace Pen

/-- The context of what is written into an element. -/
def context (pen : Pen) (e : Element) : Context :=
  ⟨pen.symbols, pen.font, e.attribute? "displaystyle" == some "false", pen.boxed⟩

variable (pen : Pen) (e : Element)

@[simp] theorem context_within (inner : Element) : (pen.context e).within inner = pen.context inner := rfl

@[simp] theorem context_appendChildren (children : List Element) :
    pen.context (e.appendChildren children) = pen.context e := rfl

theorem context_font (font : Font) : { pen.context e with font } = { pen with font }.context e := rfl

end Pen

/-- A token, and how its node by itself is written into an element. -/
abbrev Stroke := String × (Element → Element)

/-- How the children of a node are written into an element. -/
structure Strokes extends Held where
  all : Pen → Element → Element
  each : Pen → List Stroke
  /-- The first one, with a space put at the end of what it holds. -/
  spaced : Pen → Element → Element → Element

namespace Strokes

/-- What is told of children, without what they are drawn as. -/
def told (strokes : Strokes) : Inner := { nothing with toHeld := strokes.toHeld }

end Strokes

/-! ## Commands -/

def writeBox (pen : Pen) (text : String) (like : Element) (target : Element) : Element :=
  (Box.parts text).foldl (fun target part =>
    match if part.1 = .math then pen.boxed part.2 else none with
    | some elements => target.appendChild ((Element.ofTag "mrow").appendChildren elements)
    | none => target.appendChild ((like.setText (Glyph.unbroken part.2)).setFont pen.font .text)) target

/-- Writes the children of a command. Those of a table are written into cells. -/
def writeChildren (pen : Pen) (node : Node) (strokes : Strokes) (target : Element) : Element :=
  let command := node.token
  if Style.tableCommands.contains command then
    let letters := match node.alignment with
      | some alignment => (Table.splitAlignment alignment).1
      | none => []
    let items := (strokes.each pen).map fun stroke =>
      (stroke.1, (stroke.2 (Element.ofTag "mtd")).children)
    Table.fillIn command letters items target
  else if command == "\\cfrac" then
    let scope := Element.shell "mstyle" [("displaystyle", "false"), ("scriptlevel", "0")]
    (strokes.each pen).foldl (fun target stroke => target.appendChild (stroke.2 scope)) target
  else if command == "\\sideset" then
    match strokes.each pen with
    | [left, right] =>
      let fill := Drawing.styled [("scriptlevel", "0")] [Glyph.kern "-0.167em"]
      right.2 ((left.2 target).appendChild fill)
    | _ => strokes.all pen target
  else if command == "\\skew" then strokes.spaced pen (skewSpace node) target
  else if command == "\\xleftarrow" || command == "\\xrightarrow" then
    let padded := Element.ofTag "mpadded"
    let strut := Element.shell "mspace" [("depth", "0.25em")]
    (strokes.each pen).foldl
      (fun target stroke => target.appendChild ((stroke.2 padded).appendChild strut)) target
  else strokes.all pen target

/-- Writes the element of a command. The children of some stand behind the element, not in it. -/
def writeBody (pen : Pen) (node : Node) (style : Style) (strokes : Strokes) (target : Element) :
    Element :=
  let e := labelled (pen.context target) node style (shell node style strokes.told)
  if node.is "\\left" then writeChildren pen node strokes (target.appendChild e)
  else if isModulus node.token then
    writeChildren pen node strokes ((target.appendChild e).appendChild (Glyph.kern "0.333em"))
  else target.appendChild (accented node (writeChildren pen node strokes e))

/-- Writes a command with its fences, whose size is told by the element that they stand in. -/
def writeContent (pen : Pen) (node : Node) (style : Style) (strokes : Strokes) (target : Element) :
    Element :=
  match if node.is "\\hbox" then node.text else none with
  | some text => writeBox pen text (shell node style strokes.told) target
  | none =>
    let fences := fences? node
    let inTextStyle := target.attribute? "displaystyle" == some "false"
    let size := fences.bind fun fences =>
      if fences.sized then some (fenceSize inTextStyle node.token) else none
    let target := target.appendChildren (fence pen.symbols size (fences.bind Fences.opening))
    let target := writeBody pen node style strokes target
    let target := target.appendChildren (fence pen.symbols size (fences.bind Fences.closing))
    match if node.is "\\skew" then node.attribute? "width" else none with
    | some width => target.appendChild (Glyph.kern (Skew.opposite width))
    | none => target

/-- Writes a command into its scope, or into what is around it if it has none. -/
def writeInScope (pen : Pen) (node : Node) (style : Style) (strokes : Strokes) (parent : Element) :
    Element :=
  match scope? pen.symbols node.token with
  | some scope => parent.appendChild (writeContent pen node style strokes scope)
  | none => writeContent pen node style strokes parent

def writeCommand (pen : Pen) (node : Node) (style : Style) (strokes : Strokes) (parent : Element) :
    Element :=
  if isModulus node.token then
    writeInScope pen node style strokes (parent.appendChild (Glyph.kern "1em"))
  else writeInScope pen node style strokes parent

/-! ## All nodes -/

/-- What comes of writing a node: the element it was written into, a font, or a scope to go on in. -/
inductive Written where
  | into (parent : Element)
  | font (font : Font)
  | scope (attributes : Attributes)

namespace Written

/-- What comes of writing a node into an element, told by what the node is drawn as. -/
def of (parent : Element) : Drawing → Written
  | .elements list => .into (parent.appendChildren list)
  | .font new => .font new
  | .wrapper attributes => .scope attributes

/-- What a node comes to when only a given list follows. -/
def closed (parent : Element) (behind : List Element) : Written → Element
  | into parent => parent.appendChildren behind
  | font _ => parent.appendChildren behind
  | scope attributes => parent.appendChild ((Element.shell "mstyle" attributes).appendChildren behind)

theorem closed_of (parent : Element) (behind : List Element) (drawing : Drawing) :
    (of parent drawing).closed parent behind = parent.appendChildren (drawing.before behind) := by
  cases drawing with
  | elements list => exact Element.appendChildren_appendChildren parent list behind
  | font new => rfl
  | wrapper attributes => rfl

end Written

def writing (pen : Pen) (node : Node) (strokes : Strokes) (parent : Element) : Written :=
  match Style.switches.lookup node.token with
  | some attributes => .scope attributes
  | none =>
    match Style.of? node.token with
    | some style => .into (writeCommand pen node style strokes parent)
    | none =>
      match if node.isLeaf then none else Font.ofArgument.lookup node.token with
      | some font => .into (strokes.all { pen with font } parent)
      | none =>
        if !node.isLeaf && Word.begins "\\math" node.token then .into (strokes.all pen parent)
        else
          match Font.ofRest.lookup node.token with
          | some font => .font font
          | none =>
            if node.isLeaf then .into (parent.appendChild (Glyph.draw pen.symbols pen.font node))
            else
              .into (parent.appendChild (strokes.all pen (Element.shell "mrow" node.attributes)))

def noStrokes : Strokes where
  count := 0
  startsWithLimit := false
  all := fun _ e => e
  each := fun _ => []
  spaced := fun _ _ e => e

mutual

def writeNode (pen : Pen) (parent : Element) : Node → Written
  | ⟨token, none, delimiter, alignment, text, attributes, modifier⟩ =>
    writing pen ⟨token, none, delimiter, alignment, text, attributes, modifier⟩ noStrokes parent
  | ⟨token, some children, delimiter, alignment, text, attributes, modifier⟩ =>
    writing pen ⟨token, some children, delimiter, alignment, text, attributes, modifier⟩
      { count := children.length
        startsWithLimit := children.head?.any isLimit
        all := fun pen parent => write pen [] parent children
        each := fun pen => writeEach pen children
        spaced := fun pen space parent => writeSpacedHead pen space parent children } parent

/-- Writes a list of nodes into an element, and elements that stand behind all of them. -/
def write (pen : Pen) (behind : List Element) (parent : Element) : List Node → Element
  | [] => parent.appendChildren behind
  | first :: rest =>
    match writeNode pen parent first with
    | .into parent => write pen behind parent rest
    | .font font => write { pen with font } behind parent rest
    | .scope attributes => parent.appendChild (write pen behind (Element.shell "mstyle" attributes) rest)

def writeEach (pen : Pen) : List Node → List Stroke
  | [] => []
  | first :: rest =>
    (first.token, fun parent => (writeNode pen parent first).closed parent []) :: writeEach pen rest

def writeSpacedHead (pen : Pen) (space : Element) (parent : Element) : List Node → Element
  | [] => parent
  | first :: _ => writeSpaced pen space parent first

/-- Writes a skewed node: what it holds is one group, with a space behind all that was in the node. -/
def writeSpaced (pen : Pen) (space : Element) (parent : Element) : Node → Element
  | ⟨token, none, delimiter, alignment, text, attributes, modifier⟩ =>
    let leaf : Node := ⟨token, none, delimiter, alignment, text, attributes, modifier⟩
    parent.appendChild ((writing pen leaf noStrokes (groupRow [])).closed (groupRow []) [space])
  | ⟨token, some children, delimiter, alignment, text, attributes, modifier⟩ =>
    let held (pen : Pen) (behind : List Element) : Element := write pen behind (groupRow []) children
    (writing pen ⟨token, some children, delimiter, alignment, text, attributes, modifier⟩
      { count := 1
        startsWithLimit := false
        all := fun pen parent => parent.appendChild (held pen [space])
        each := fun pen => [(Word.braces, fun parent => parent.appendChild (held pen [space]))]
        spaced := fun pen further parent =>
          parent.appendChild ((groupRow []).appendChild (held pen [space, further])) }
      parent).closed parent []

end

/-! ## Writing appends -/

/-- A stroke puts a list of elements into each element that gives a context. -/
def Appends (pen : Pen) (ctx : Context) (stroke : Stroke) (item : Table.Item) : Prop :=
  stroke.1 = item.1 ∧ ∀ e, pen.context e = ctx → stroke.2 e = e.appendChildren item.2

namespace Strokes

/-- The children of a node are written as what they are drawn as. -/
structure Append (strokes : Strokes) (inner : Inner) : Prop where
  held : strokes.toHeld = inner.toHeld
  all : ∀ pen e, strokes.all pen e = e.appendChildren (inner.all (pen.context e))
  each : ∀ pen ctx, List.Forall₂ (Appends pen ctx) (strokes.each pen) (inner.each ctx)
  spaced : ∀ pen space e,
    strokes.spaced pen space e = e.appendChildren (inner.spaced (pen.context e) space)

end Strokes

/-- Strokes into elements of the same kind. -/
theorem map_strokes {α : Type} {pen : Pen} {e : Element} {strokes : List Stroke}
    {items : List Table.Item} (append : List.Forall₂ (Appends pen (pen.context e)) strokes items)
    (f : String → Element → α) :
    strokes.map (fun stroke => f stroke.1 (stroke.2 e)) =
      items.map fun item => f item.1 (e.appendChildren item.2) := by
  induction append with
  | nil => rfl
  | cons first _ ih =>
    rw [List.map_cons, List.map_cons, ih, first.1, first.2 e rfl]

theorem writeBox_eq (pen : Pen) (text : String) (like target : Element) :
    writeBox pen text like target =
      target.appendChildren (boxParts (pen.context target) text like) := by
  unfold writeBox boxParts
  rw [← Element.foldl_appendChild]
  congr 1
  funext target' parted
  obtain ⟨mode, part⟩ := parted
  dsimp only [Pen.context]
  cases if mode = .math then pen.boxed part else none <;> rfl

section

variable {strokes : Strokes} {inner : Inner} (append : strokes.Append inner) (pen : Pen) (node : Node)

include append

theorem shell_append (style : Style) : shell node style strokes.told = shell node style inner := by
  have held : strokes.told.toHeld = inner.toHeld := append.held
  unfold shell
  rw [held]

/-- The children of a command are written into its element. -/
theorem writeChildren_eq (ctx : Context) (e : Element) (same : ctx.within e = pen.context e) :
    writeChildren pen node strokes e = filled ctx node inner e := by
  have each (e : Element) := append.each pen (pen.context e)
  unfold writeChildren filled
  dsimp only
  rw [same]
  simp only [Pen.context_within]
  split
  · have items := map_strokes (each (Element.ofTag "mtd")) fun token cell => (token, cell.children)
    rw [items]
    exact congrArg (Table.fillIn _ _ · e) (List.map_id _)
  split
  · rw [Element.foldl_appendChild, map_strokes (each _) fun _ scope => scope]
  split
  · have both := each e
    generalize strokes.each pen = written at both ⊢
    generalize inner.each (pen.context e) = drawn at both ⊢
    rcases both with _ | ⟨left, _ | ⟨right, _ | _⟩⟩
    · exact append.all pen e
    · exact append.all pen e
    · dsimp only
      rw [left.2 e rfl]
      refine (right.2 _ ?_).trans ?_
      · rfl
      · simp [Element.appendChild_eq]
    · exact append.all pen e
  split
  · exact append.spaced pen _ e
  split
  · rw [Element.foldl_appendChild]
    have padded := map_strokes (each (Element.ofTag "mpadded")) fun _ padded =>
      padded.appendChild (Element.shell "mspace" [("depth", "0.25em")])
    rw [padded]
    simp [Element.appendChild_eq]
  · exact append.all pen e

/-- The children of these commands stand where the commands do. -/
theorem writeChildren_beside (e : Element) (beside : node.token ∈ ["\\left", "\\mod", "\\pmod"]) :
    writeChildren pen node strokes e = e.appendChildren (inner.all (pen.context e)) := by
  have plain : ∀ command ∈ ["\\left", "\\mod", "\\pmod"],
      Style.tableCommands.contains command = false ∧ (command == "\\cfrac") = false ∧
        (command == "\\sideset") = false ∧ (command == "\\skew") = false ∧
          (command == "\\xleftarrow" || command == "\\xrightarrow") = false := by
    decide
  obtain ⟨table, fraction, sides, skew, arrow⟩ := plain _ beside
  unfold writeChildren
  simp only [table, fraction, sides, skew, arrow, Bool.false_eq_true, if_false]
  exact append.all pen e

theorem writeBody_eq (style : Style) (target : Element) :
    writeBody pen node style strokes target =
      target.appendChildren (body (pen.context target) node style inner) := by
  unfold writeBody body
  rw [shell_append append]
  dsimp only
  split
  · rename_i left
    rw [writeChildren_beside append pen node _ (by simp [eq_of_beq left])]
    simp [Element.appendChild_eq]
  split
  · rename_i modulus
    have beside : node.token ∈ ["\\left", "\\mod", "\\pmod"] := by
      rw [isModulus, Bool.or_eq_true, beq_iff_eq, beq_iff_eq] at modulus
      simp [modulus]
    rw [writeChildren_beside append pen node _ beside]
    simp [Element.appendChild_eq]
  · rw [writeChildren_eq append pen node (pen.context target) _ rfl]
    rfl

theorem writeContent_eq (style : Style) (target : Element) :
    writeContent pen node style strokes target =
      target.appendChildren (content (pen.context target) node style inner) := by
  unfold writeContent content
  rw [shell_append append]
  cases if node.is "\\hbox" then node.text else none with
  | some text => exact writeBox_eq pen text _ target
  | none =>
    dsimp only
    rw [writeBody_eq append, Pen.context_appendChildren]
    cases if node.is "\\skew" then node.attribute? "width" else none with
    | some width =>
      simp only [Element.appendChild_eq, Element.appendChildren_appendChildren]
      rfl
    | none =>
      simp only [Element.appendChildren_appendChildren, Option.map_none, Option.toList_none,
        List.append_nil]
      rfl

theorem writeInScope_eq (style : Style) (parent : Element) :
    writeInScope pen node style strokes parent =
      parent.appendChildren (inScope (pen.context parent) node style inner) := by
  unfold writeInScope inScope
  rw [show (pen.context parent).symbols = pen.symbols from rfl]
  cases scope? pen.symbols node.token with
  | some scope =>
    dsimp only
    rw [writeContent_eq append]
    rfl
  | none => exact writeContent_eq append pen node style parent

theorem writeCommand_eq (style : Style) (parent : Element) :
    writeCommand pen node style strokes parent =
      parent.appendChildren (command (pen.context parent) node style inner) := by
  unfold writeCommand command
  split
  · rw [writeInScope_eq append]
    exact Element.appendChildren_appendChildren parent [_] _
  · exact writeInScope_eq append pen node style parent

end

/-! ## Nodes are written as they are drawn -/

theorem writing_eq {strokes : Strokes} {inner : Inner} (append : strokes.Append inner) (pen : Pen)
    (node : Node) (parent : Element) :
    writing pen node strokes parent =
      Written.of parent (drawing (pen.context parent) node inner) := by
  unfold writing drawing
  cases Style.switches.lookup node.token with
  | some attributes => rfl
  | none =>
    cases Style.of? node.token with
    | some style => exact congrArg Written.into (writeCommand_eq append pen node style parent)
    | none =>
      cases if node.isLeaf then none else Font.ofArgument.lookup node.token with
      | some font => exact congrArg Written.into (append.all { pen with font } parent)
      | none =>
        dsimp only
        split
        · exact congrArg Written.into (append.all pen parent)
        · cases Font.ofRest.lookup node.token with
          | some font => rfl
          | none =>
            dsimp only
            split
            · rfl
            · rw [append.all]
              rfl

theorem noStrokes_append : noStrokes.Append nothing where
  held := rfl
  all := fun _ e => (Element.appendChildren_nil e).symm
  each := fun _ _ => .nil
  spaced := fun _ _ e => (Element.appendChildren_nil e).symm

mutual

theorem writeNode_eq (pen : Pen) (parent : Element) : (n : Node) →
    writeNode pen parent n = Written.of parent (node (pen.context parent) n)
  | ⟨token, none, delimiter, alignment, text, attributes, modifier⟩ => by
    rw [writeNode, node, writing_eq noStrokes_append]
  | ⟨token, some children, delimiter, alignment, text, attributes, modifier⟩ => by
    rw [writeNode, node]
    apply writing_eq
    constructor
    · rfl
    · exact fun pen e => write_eq pen [] e children
    · exact fun pen ctx => writeEach_append pen ctx children
    · exact fun pen space e => writeSpacedHead_eq pen space e children

theorem write_eq (pen : Pen) (behind : List Element) (parent : Element) : (nodes : List Node) →
    write pen behind parent nodes = parent.appendChildren (group (pen.context parent) behind nodes)
  | [] => by
    rw [write, group]
  | first :: rest => by
    rw [write, group, writeNode_eq pen parent first]
    cases node (pen.context parent) first with
    | elements list =>
      change write pen behind (parent.appendChildren list) rest = _
      rw [write_eq pen behind (parent.appendChildren list) rest]
      exact Element.appendChildren_appendChildren parent list _
    | font font => exact write_eq { pen with font } behind parent rest
    | wrapper attributes =>
      change parent.appendChild (write pen behind (Element.shell "mstyle" attributes) rest) = _
      rw [write_eq pen behind (Element.shell "mstyle" attributes) rest]
      rfl

theorem writeEach_append (pen : Pen) (ctx : Context) : (nodes : List Node) →
    List.Forall₂ (Appends pen ctx) (writeEach pen nodes) (each ctx nodes)
  | [] => by
    rw [writeEach, each]
    exact .nil
  | first :: rest => by
    rw [writeEach, each]
    refine .cons ⟨rfl, ?_⟩ (writeEach_append pen ctx rest)
    rintro e rfl
    dsimp only
    rw [writeNode_eq pen e first, Written.closed_of]

theorem writeSpacedHead_eq (pen : Pen) (space parent : Element) : (nodes : List Node) →
    writeSpacedHead pen space parent nodes =
      parent.appendChildren (spacedHead (pen.context parent) space nodes)
  | [] => by
    rw [writeSpacedHead, spacedHead, Element.appendChildren_nil]
  | first :: _ => by
    rw [writeSpacedHead, spacedHead, writeSpaced_eq pen space parent first]

theorem writeSpaced_eq (pen : Pen) (space parent : Element) : (n : Node) →
    writeSpaced pen space parent n =
      parent.appendChildren (spacedNode (pen.context parent) space n)
  | ⟨token, none, delimiter, alignment, text, attributes, modifier⟩ => by
    rw [writeSpaced, spacedNode, writing_eq noStrokes_append, Written.closed_of]
    rfl
  | ⟨token, some children, delimiter, alignment, text, attributes, modifier⟩ => by
    have held (pen : Pen) (behind : List Element) : write pen behind (groupRow []) children =
        groupRow (group (pen.context (groupRow [])) behind children) :=
      write_eq pen behind (groupRow []) children
    rw [writeSpaced, spacedNode, ← Written.closed_of]
    refine congrArg (Written.closed parent []) (writing_eq ?_ pen _ parent)
    constructor
    · rfl
    · intro pen e
      dsimp only
      rw [held]
      rfl
    · intro pen ctx
      refine .cons ⟨rfl, ?_⟩ .nil
      rintro e rfl
      dsimp only
      rw [held]
      rfl
    · intro pen further e
      dsimp only
      rw [held]
      rfl

end

/-- A source is drawn by writing its nodes into a row. -/
theorem source_written (symbols : SymbolTable) (text : String) :
    source symbols text = (Formula.parse symbols text).map fun nodes =>
      let boxed (inner : String) : Option (List Element) :=
        if inner.length < text.length then (source symbols inner).toOption else none
      (write ⟨symbols, .plain, boxed⟩ [] (Element.ofTag "mrow") nodes).children := by
  rw [source]
  cases Formula.parse symbols text with
  | error e => rfl
  | ok nodes =>
    dsimp only [Except.map]
    rw [write_eq]
    rfl

end Draw

end FormulaMarkup
