import FormulaMarkup.Formula.Skew
import FormulaMarkup.Render.Box
import FormulaMarkup.Render.Glyph
import FormulaMarkup.Render.Style
import FormulaMarkup.Render.Table

/-!
How a node is drawn, given what its children are drawn as. Nothing here is recursive: the children
come as functions of the context in which they stand.
-/
namespace FormulaMarkup

structure Context where
  symbols : SymbolTable
  font : Font
  /-- Whether the element that the node is put into is set in text style. -/
  inTextStyle : Bool
  /-- What a formula in the text of a box is drawn as; nothing if it is wrong. -/
  boxed : String → Option (List Element)

namespace Context

def within (ctx : Context) (e : Element) : Context :=
  { ctx with inTextStyle := e.attribute? "displaystyle" == some "false" }

end Context

/-- What is told of the children of a node before they are drawn. -/
structure Held where
  count : Nat
  /-- Whether the first one is an operator whose scripts stand above and below. -/
  startsWithLimit : Bool
  deriving Repr, DecidableEq

/-- What the children of a node are drawn as. -/
structure Inner extends Held where
  all : Context → List Element
  each : Context → List Table.Item
  /-- The first one, with a space put at the end of what it holds. -/
  spaced : Context → Element → List Element

inductive Drawing where
  | elements (list : List Element)
  | font (font : Font)
  /-- It wraps what follows in an element with these attributes. -/
  | wrapper (attributes : Attributes)

namespace Drawing

/-- An element for a style that holds other elements. -/
def styled (attributes : Attributes) (children : List Element) : Element :=
  ⟨"mstyle", attributes, "", children⟩

/-- What a node is drawn as when only a given list follows. -/
def before (drawing : Drawing) (following : List Element) : List Element :=
  match drawing with
  | elements list => list ++ following
  | font _ => following
  | wrapper attributes => [styled attributes following]

end Drawing

namespace Draw

/-! ## Fences -/

structure Fences where
  opening : Option String
  closing : Option String
  sized : Bool

def fixed (opening closing : String) (sized : Bool) : Option Fences :=
  some ⟨some opening, some closing, sized⟩

/-- The fences around a command; a star at the end of its name makes no difference. -/
def fences? (node : Node) : Option Fences :=
  match String.ofList ((node.token.toList.reverse.dropWhile (· = '*')).reverse) with
  | "\\pmatrix" | "\\pmod" => fixed "\\lparen" "\\rparen" false
  | "\\binom" | "\\dbinom" | "\\tbinom" => fixed "\\lparen" "\\rparen" true
  | "\\bmatrix" => fixed "\\lbrack" "\\rbrack" false
  | "\\Bmatrix" => fixed "\\lbrace" "\\rbrace" false
  | "\\vmatrix" => fixed "\\vert" "\\vert" false
  | "\\Vmatrix" => fixed "\\Vert" "\\Vert" false
  | "\\frac" | "\\genfrac" =>
    match node.delimiter with
    | some (.pair opening closing) => some ⟨opening, closing, true⟩
    | _ => none
  | _ => none

/-- The size of fences with a size of their own. -/
def fenceSize (inTextStyle : Bool) (command : String) : String :=
  if inTextStyle || command == "\\tbinom" then "1.2em" else "2.047em"

def fence (symbols : SymbolTable) (size : Option String) (name : Option String) : List Element :=
  match name with
  | none => []
  | some name =>
    let attributes := match size with
      | some size => [("minsize", size), ("maxsize", size)]
      | none => []
    [⟨"mo", attributes, symbols.textOf name, []⟩]

/-! ## The element of a command -/

def scope? (symbols : SymbolTable) : String → Option Element
  | "\\substack" | "\\smallmatrix" | "\\subarray" =>
    some (Element.shell "mstyle" [("scriptlevel", "1")])
  | "\\cases" =>
    let brace : Element :=
      ⟨"mo", Style.stretching ++ [("form", "prefix")], symbols.textOf "\\\x7b", []⟩
    some (Element.holding "mrow" [brace])
  | "\\dbinom" | "\\dfrac" =>
    some (Element.shell "mstyle" [("displaystyle", "true"), ("scriptlevel", "0")])
  | "\\hphantom" => some (Element.shell "mpadded" [("height", "0"), ("depth", "0")])
  | "\\vphantom" => some (Element.shell "mpadded" [("width", "0")])
  | "\\tbinom" | "\\hbox" | "\\mbox" | "\\tfrac" =>
    some (Element.shell "mstyle" [("displaystyle", "false"), ("scriptlevel", "0")])
  | "\\left" => some (Element.ofTag "mrow")
  | _ => none

/-- Whether a leaf is an operator whose scripts stand above and below. -/
def isLimit (node : Node) : Bool :=
  node.isLeaf &&
    (Style.limitCommands.contains node.token || (Glyph.labels.lookup node.token).isSome)

/-- The tag of a command. Scripts stand above and below an operator with limits, and where a
modifier says so; an arrow with two labels has one above and one below. -/
def tag (node : Node) (held : Held) (usual : String) : String :=
  let above := held.startsWithLimit || node.modifier == some .limits ||
    node.modifier == some .overbrace
  let below := held.startsWithLimit || node.modifier == some .limits ||
    node.modifier == some .underbrace
  if node.is "^" && above then "mover"
  else if node.is "_" && below then "munder"
  else if node.is "_^" && (above || below) then "munderover"
  else if (node.is "\\xleftarrow" || node.is "\\xrightarrow") && held.count = 2 then "munderover"
  else usual

/-- Whether a command is one of those that name a remainder. -/
def isModulus (command : String) : Bool := command == "\\mod" || command == "\\pmod"

/-- The element of a command without what it holds: its tag and its attributes. -/
def shell (node : Node) (style : Style) (inner : Inner) : Element :=
  let e := Element.shell (tag node inner.toHeld style.tag) style.attributes
  let e := if node.is "\\skew" then e else e.setAttributes node.attributes
  let e :=
    if Style.limitCommands.contains node.token then e.setAttribute "movablelimits" "true" else e
  match node.alignment.bind fun alignment => (Table.splitAlignment alignment).2 with
  | some rules => e.setAttribute "columnlines" (" ".intercalate rules)
  | none => e

/-- The text of a command, and what stands before its children. -/
def labelled (ctx : Context) (node : Node) (style : Style) (e : Element) : Element :=
  if Style.limitCommands.contains node.token then
    e.setText (String.ofList (node.token.toList.drop 1))
  else if isModulus node.token || node.is "\\bmod" then e.setText "mod"
  else if node.is "\\xleftarrow" || node.is "\\xrightarrow" then
    let arrow := if node.is "\\xleftarrow" then "\u2190" else "\u2192"
    e.appendChild (Drawing.styled [("scriptlevel", "0")] [Element.ofText "mo" arrow])
  else
    match node.text with
    | some text =>
      if style.tag == "mo" then e.setText (ctx.symbols.textOf text)
      else if node.is "\\fbox" then
        e.appendChild ((Element.ofText "mtext" (Glyph.unbroken text)).setFont ctx.font .text)
      else (e.setText (Glyph.unbroken text)).setFont ctx.font .text
    | none =>
      match node.delimiter with
      | some (.single delimiter) =>
        if delimiter == "." then e else e.setText (ctx.symbols.textOf delimiter)
      | _ => e

/-- The space at the end of what a skewed accent holds. -/
def skewSpace (node : Node) : Element := Element.shell "mspace" node.attributes

/-- Fills the element of a command with its children. -/
def filled (ctx : Context) (node : Node) (inner : Inner) (e : Element) : Element :=
  let ctx := ctx.within e
  let command := node.token
  if Style.tableCommands.contains command then
    let letters := match node.alignment with
      | some alignment => (Table.splitAlignment alignment).1
      | none => []
    Table.fillIn command letters (inner.each (ctx.within (Element.ofTag "mtd"))) e
  else if command == "\\cfrac" then
    let scope := Element.shell "mstyle" [("displaystyle", "false"), ("scriptlevel", "0")]
    e.appendChildren ((inner.each (ctx.within scope)).map fun item => scope.appendChildren item.2)
  else if command == "\\sideset" then
    match inner.each ctx with
    | [left, right] =>
      let fill := Drawing.styled [("scriptlevel", "0")] [Glyph.kern "-0.167em"]
      e.appendChildren (left.2 ++ fill :: right.2)
    | _ => e.appendChildren (inner.all ctx)
  else if command == "\\skew" then e.appendChildren (inner.spaced ctx (skewSpace node))
  else if command == "\\xleftarrow" || command == "\\xrightarrow" then
    let padded := Element.ofTag "mpadded"
    let strut := Element.shell "mspace" [("depth", "0.25em")]
    e.appendChildren
      ((inner.each (ctx.within padded)).map fun item => padded.appendChildren (item.2 ++ [strut]))
  else e.appendChildren (inner.all ctx)

/-- Puts an accent behind what the element of an accent command holds. -/
def accented (node : Node) (e : Element) : Element :=
  match Style.accents.lookup node.token with
  | some (glyph, attributes) => e.appendChild ⟨"mo", attributes, glyph, []⟩
  | none => e

/-- The parts of the text of a box. Each part of text is an element like the given one; a formula
that is wrong is shown as text. -/
def boxParts (ctx : Context) (text : String) (e : Element) : List Element :=
  (Box.parts text).map fun (mode, part) =>
    match if mode = .math then ctx.boxed part else none with
    | some elements => Element.holding "mrow" elements
    | none => (e.setText (Glyph.unbroken part)).setFont ctx.font .text

/-- What a command with a style is drawn as within its fences. -/
def body (ctx : Context) (node : Node) (style : Style) (inner : Inner) : List Element :=
  let e := labelled ctx node style (shell node style inner)
  if node.is "\\left" then e :: inner.all ctx
  else if isModulus node.token then e :: Glyph.kern "0.333em" :: inner.all ctx
  else [accented node (filled ctx node inner e)]

/-- What stands within the scope of a command: the parts of a box, or a body with fences around. -/
def content (ctx : Context) (node : Node) (style : Style) (inner : Inner) : List Element :=
  match if node.is "\\hbox" then node.text else none with
  | some text => boxParts ctx text (shell node style inner)
  | none =>
    let fences := fences? node
    let size := fences.bind fun fences =>
      if fences.sized then some (fenceSize ctx.inTextStyle node.token) else none
    let fence (name : Option String) : List Element := fence ctx.symbols size name
    let opposite := if node.is "\\skew" then node.attribute? "width" else none
    fence (fences.bind Fences.opening) ++ body ctx node style inner ++
      fence (fences.bind Fences.closing) ++
      (opposite.map fun width => Glyph.kern (Skew.opposite width)).toList

/-- The content of a command within its scope, if it has one. -/
def inScope (ctx : Context) (node : Node) (style : Style) (inner : Inner) : List Element :=
  match scope? ctx.symbols node.token with
  | some scope => [scope.appendChildren (content (ctx.within scope) node style inner)]
  | none => content ctx node style inner

/-- What a command with a style is drawn as. A space stands before the name of a remainder. -/
def command (ctx : Context) (node : Node) (style : Style) (inner : Inner) : List Element :=
  if isModulus node.token then Glyph.kern "1em" :: inScope ctx node style inner
  else inScope ctx node style inner

/-! ## All nodes -/

/-- What a node does where it stands. The first rule that applies to its token decides. -/
def drawing (ctx : Context) (node : Node) (inner : Inner) : Drawing :=
  match Style.switches.lookup node.token with
  | some attributes => .wrapper attributes
  | none =>
    match Style.of? node.token with
    | some style => .elements (command ctx node style inner)
    | none =>
      match if node.isLeaf then none else Font.ofArgument.lookup node.token with
      | some font => .elements (inner.all { ctx with font })
      | none =>
        if !node.isLeaf && Word.begins "\\math" node.token then .elements (inner.all ctx)
        else
          match Font.ofRest.lookup node.token with
          | some font => .font font
          | none =>
            if node.isLeaf then .elements [Glyph.draw ctx.symbols ctx.font node]
            else
              let row := Element.shell "mrow" node.attributes
              .elements [row.appendChildren (inner.all (ctx.within row))]

end Draw

end FormulaMarkup
