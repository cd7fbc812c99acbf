import FormulaMarkup.Display
import FormulaMarkup.Markup.Written
import FormulaMarkup.Render.Source
import FormulaMarkup.Symbol.Known

/-!
Conversion of formulas: from a source to the element of its formula, and to the text of that
element.
-/
namespace FormulaMarkup

/-- When a converted formula is spread over several lines. -/
inductive PrettyPrint where
  | never | always
  | auto
  deriving Repr, DecidableEq

def PrettyPrint.appliesTo : PrettyPrint → Display → Bool
  | .never, _ => false
  | .always, _ => true
  | .auto, display => display = .block

structure Settings where
  prettyPrint : PrettyPrint := .never
  /-- The number of spaces for a level, where lines are broken. -/
  indent : Nat := 2
  namespaceUri : Option String := none
  deriving Repr, DecidableEq

/-- The element of a formula: one row in an element that says how the formula is displayed. -/
def formulaElement (namespaceUri : Option String) (display : String) (row : List Element) : Element :=
  let attributes := (namespaceUri.map fun uri => ("xmlns", uri)).toList ++ [("display", display)]
  ⟨"math", attributes, "", [Element.holding "mrow" row]⟩

/-- A converter of formulas: its settings and the symbols that it knows. -/
structure Converter where
  settings : Settings := {}
  symbols : SymbolTable := .known

namespace Converter

def parse (converter : Converter) (source : String) : Except FormulaError (List Node) :=
  Formula.parse converter.symbols source

def toElement (converter : Converter) (source : String) (display : Display) :
    Except FormulaError Element :=
  (Draw.source converter.symbols source).map
    (formulaElement converter.settings.namespaceUri display.word)

/-- The width of an indent, which is zero for a formula on one line. -/
def widthFor (converter : Converter) (display : Display) : Nat :=
  if converter.settings.prettyPrint.appliesTo display then converter.settings.indent else 0

def convert (converter : Converter) (source : String) (display : Display) :
    Except FormulaError String :=
  (converter.toElement source display).map (·.written (converter.widthFor display))

end Converter

/-- The text for a source in one call, with the known symbols. An empty namespace is none. -/
def convert (source namespaceUri display : String) (indent : Nat) : Except FormulaError String :=
  let uri := if namespaceUri.isEmpty then none else some namespaceUri
  (Draw.source .known source).map fun row => (formulaElement uri display row).written indent

end FormulaMarkup
