/-!
Display of a formula: within a line of text, or as a block of its own.
-/
namespace FormulaMarkup

inductive Display where
  | inline | block
  deriving Repr, DecidableEq

def Display.word : Display → String
  | .inline => "inline"
  | .block => "block"

end FormulaMarkup
