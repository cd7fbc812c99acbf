import FormulaMarkup.Formula.Node
import FormulaMarkup.Markup.Element
import FormulaMarkup.Render.Font
import FormulaMarkup.Symbol.Table

/-!
Glyphs: how a leaf is drawn that is no command with a style of its own. What it is drawn as is told
by its token and by the code point that the symbol table has for it.
-/
namespace FormulaMarkup

namespace Element

/-- Sets the variant that a font has for a kind of glyph. -/
def setFont (e : Element) (font : Font) (kind : GlyphKind) : Element :=
  match font.variant? kind with
  | some variant => e.setAttribute "mathvariant" variant
  | none => e

end Element

namespace Glyph

def functions : List String := [
  "\\arccos", "\\arcsin", "\\arctan", "\\cos", "\\cosh", "\\cot", "\\coth", "\\csc", "\\deg",
  "\\dim", "\\exp", "\\hom", "\\ker", "\\ln", "\\lg", "\\log", "\\sec", "\\sin", "\\sinh", "\\tan",
  "\\tanh"]

/-- The operators with a label whose scripts stand above and below. -/
def labels : List (String × String) := [
  ("\\det", "det"),
  ("\\gcd", "gcd"),
  ("\\intop", "\u222b"),
  ("\\injlim", "inj\u2006lim"),
  ("\\liminf", "lim\u2006inf"),
  ("\\limsup", "lim\u2006sup"),
  ("\\Pr", "Pr"),
  ("\\projlim", "proj\u2006lim")]

/-- The operators, apart from those that their code points tell. -/
def operators : List String := [
  "+", "-", "*", "/", "(", ")", "=", ",", "?", "[", "]", "|", "\\|", "!", "\\\x7b", "\\\x7d", ">",
  "<", ".", "\\bigotimes", "\\centerdot", "\\dots", "\\dotsc", "\\dotso", "\\gt", "\\ldotp", "\\lt",
  "\\lvert", "\\lVert", "\\lvertneqq", "\\ngeqq", "\\omicron", "\\rvert", "\\rVert", "\\S",
  "\\smallfrown", "\\smallint", "\\smallsmile", "\\surd", "\\varsubsetneqq", "\\varsupsetneqq",
  "\\times", "\\pm", "\\mp", "\\div", "\\neg", "\\lnot", "\\langle", "\\rangle", "\\lfloor",
  "\\rfloor", "\\lceil", "\\rceil"]

/-- The operators that are fences, which do not stretch. -/
def fences : List String := [
  "(", ")", "[", "]", "|", "\\|", "\\\x7b", "\\\x7d", "\\surd", "\\langle", "\\rangle", "\\lfloor",
  "\\rfloor", "\\lceil", "\\rceil"]

def spaces : List String := ["\\ ", "~", "\\nobreakspace", "\\space"]

def noBreakSpace : Char := '\u00a0'

def unbroken (text : String) : String :=
  String.ofList (text.toList.map fun c => if c = ' ' then noBreakSpace else c)

def isOperatorCode (code : Nat) : Bool :=
  (0x2200 ≤ code ∧ code ≤ 0x22FF) ∨ (0x2190 ≤ code ∧ code ≤ 0x21FF)

def kern (width : String) : Element := Element.shell "mspace" [("width", width)]

def letter (font : Font) (text : String) : Element :=
  (Element.ofText "mi" text).setFont font .identifier

def logoEnd (font : Font) : List Element := [
  letter font "T",
  kern "-0.14em",
  ⟨"mpadded", [("height", "-0.5ex"), ("depth", "0.5ex"), ("voffset", "-0.5ex")], "",
    [Element.holding "mrow" [letter font "E"]]⟩,
  kern "-0.115em",
  letter font "X"]

def logoStart (font : Font) : List Element := [
  letter font "L",
  kern "-0.325em",
  ⟨"mpadded", [("height", "0.21ex"), ("depth", "-0.21ex"), ("voffset", "0.21ex")], "",
    [⟨"mstyle", [("displaystyle", "false"), ("scriptlevel", "1")], "",
      [Element.holding "mrow" [letter font "A"]]⟩]⟩,
  kern "-0.17em"]

def operator (symbols : SymbolTable) (font : Font) (node : Node) : Element :=
  let e := (Element.shell "mo" node.attributes).setText (symbols.textOf node.token)
  let e :=
    if node.is "\\|" then e.setAttribute "fence" "false"
    else if node.is "\\smallint" then e.setAttribute "largeop" "false"
    else e
  if fences.contains node.token then (e.setAttribute "stretchy" "false").setFont font .fence
  else e.setFont font .operator

/-- The text of a command that is an identifier. -/
def identifierText (symbols : SymbolTable) (token : String) : String :=
  match symbols.character? token with
  | some c => String.singleton c
  | none => if functions.contains token then String.ofList (token.toList.drop 1) else token

def draw (symbols : SymbolTable) (font : Font) (node : Node) : Element :=
  let token := node.token
  let shell (tag : String) : Element := Element.shell tag node.attributes
  if token.toList.any Char.isDigit then ((shell "mn").setText token).setFont font .number
  else if operators.contains token then operator symbols font node
  else if (symbols.codePoint? token).any isOperatorCode then
    ((shell "mo").setText (symbols.textOf token)).setFont font .operator
  else if spaces.contains token then
    ((shell "mtext").setText (String.singleton noBreakSpace)).setFont font .text
  else if token == "\\not" then
    ⟨"mpadded", [("width", "0")], "", [Element.ofText "mtext" "\u29f8"]⟩
  else
    match labels.lookup token with
    | some label =>
      (((Element.shell "mo" [("movablelimits", "true")]).setAttributes node.attributes).setText
        label).setFont font .operator
    | none =>
      if token == "\\idotsint" then
        (shell "mrow").appendChildren
          (["\u222b", "\u22ef", "\u222b"].map (Element.ofText "mo"))
      else if token == "\\LaTeX" then
        (shell "mrow").appendChildren (logoStart font ++ logoEnd font)
      else if token == "\\TeX" then (shell "mrow").appendChildren (logoEnd font)
      else
        match Word.inside? Word.operatorStart token with
        | some name => (shell "mo").setText name
        | none =>
          let text := if Word.begins "\\" token then identifierText symbols token else token
          ((shell "mi").setText text).setFont font .identifier

end Glyph

end FormulaMarkup
