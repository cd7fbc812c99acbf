import FormulaMarkup.Display
import FormulaMarkup.Formula.Error
import FormulaMarkup.Markup.Escape

/-!
Snippets: what a page shows for a formula that is wrong. The source of the formula stands in an
element whose title says where it is wrong and why. The class is written as it is given; the message
and the source are escaped.
-/
namespace FormulaMarkup.Snippet

/-- The class of a snippet when no other one is given. -/
def defaultClass : String := "latex2mathml-error"

def tag : Display → String
  | .inline => "span"
  | .block => "p"

def written (e : FormulaError) (source : String) (display : Display) (cssClass : Option String) :
    List Char :=
  '<' :: (tag display).toList ++
    " class=\"".toList ++ (cssClass.getD defaultClass).toList ++
    "\" title=\"".toList ++ (toString e.span.start).toList ++ ": ".toList ++
    Escape.attributeValue e.cause.message ++
    "\"><code>".toList ++ Escape.content source ++
    "</code></".toList ++ (tag display).toList ++ ['>']

end FormulaMarkup.Snippet
