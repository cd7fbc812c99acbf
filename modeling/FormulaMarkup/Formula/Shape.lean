import FormulaMarkup.Formula.Node

/-!
Shapes of commands: which arguments a command takes and how they are written. A command without a
shape takes none.
-/
namespace FormulaMarkup

/-- How thick the bar of an infix fraction is. -/
inductive BarThickness where
  | natural
  | zero
  | argument
  deriving Repr, DecidableEq

/-- An infix fraction: it makes one fraction of all that stands before and behind it. -/
structure InfixFraction where
  bar : BarThickness
  /-- The delimiters around the fraction, if the command has any of its own. A command with its own
  delimiters may stand at the start or at the end of a group. -/
  fences : Option (String × String) := none
  readsFences : Bool := false
  deriving Repr, DecidableEq

inductive Shape where
  | nodes (count : Nat)
  /-- Two nodes, of which the second is the base of the first. -/
  | reversed
  | negation
  /-- One node, with a label in brackets before it if there is one. -/
  | labelledArrow
  | space
  /-- A raw token, for all that follows in the group. -/
  | color
  /-- A raw token and a node, which is returned with an attribute. -/
  | style
  | rawText
  | link
  | infixFraction (fraction : InfixFraction)
  | squareRoot
  | root
  /-- A table body, in braces or up to the end of the group. -/
  | table
  | generalFraction
  | sideScripts
  | skew
  deriving Repr, DecidableEq

namespace Shape

def oneNode : List String := [
  "\\acute", "\\bar", "\\Bbb", "\\boldsymbol", "\\boxed", "\\breve", "\\check", "\\dot", "\\ddot",
  "\\dddot", "\\ddddot", "\\grave", "\\hat", "\\hphantom", "\\mathring", "\\mit", "\\mod",
  "\\oldstyle", "\\overbrace", "\\overleftarrow", "\\overleftrightarrow", "\\overline",
  "\\overparen", "\\overrightarrow", "\\phantom", "\\pmod", "\\scr", "\\tilde", "\\tt",
  "\\underbrace", "\\underleftarrow", "\\underline", "\\underparen", "\\underrightarrow",
  "\\underleftrightarrow", "\\vec", "\\vphantom", "\\widehat", "\\widetilde"]

def twoNodes : List String := [
  "\\binom", "\\cfrac", "\\dbinom", "\\dfrac", "\\frac", "\\tbinom", "\\tfrac"]

def spaces : List String := ["\\hskip", "\\hspace", "\\kern", "\\mkern", "\\mskip", "\\mspace"]

def rawTexts : List String := [
  "\\fbox", "\\hbox", "\\mbox", "\\middle", "\\text", "\\textbf", "\\textit", "\\textrm",
  "\\textsf", "\\texttt", "\\big", "\\Big", "\\bigg", "\\Bigg", "\\bigl", "\\Bigl", "\\biggl",
  "\\Biggl", "\\bigm", "\\Bigm", "\\biggm", "\\Biggm", "\\bigr", "\\Bigr", "\\biggr", "\\Biggr"]

def tables : List String := [
  "\\matrix", "\\matrix*", "\\pmatrix", "\\pmatrix*", "\\bmatrix", "\\bmatrix*", "\\Bmatrix",
  "\\Bmatrix*", "\\vmatrix", "\\vmatrix*", "\\Vmatrix", "\\Vmatrix*", "\\array", "\\substack",
  "\\cases", "\\displaylines", "\\smallmatrix", "\\split", "\\align*"]

def infixFractions : List (String × InfixFraction) := [
  ("\\over", { bar := .natural }),
  ("\\above", { bar := .argument }),
  ("\\abovewithdelims", { bar := .argument, readsFences := true }),
  ("\\atop", { bar := .zero }),
  ("\\atopwithdelims", { bar := .zero, readsFences := true }),
  ("\\brace", { bar := .zero, fences := some ("\x7b", "\x7d") }),
  ("\\brack", { bar := .zero, fences := some ("[", "]") }),
  ("\\choose", { bar := .zero, fences := some ("(", ")") })]

/-- The commands with a shape that no other command has. -/
def single : List (String × Shape) := [
  ("\\overset", .reversed), ("\\underset", .reversed), ("\\not", .negation),
  ("\\xleftarrow", .labelledArrow), ("\\xrightarrow", .labelledArrow), ("\\color", .color),
  ("\\style", .style), ("\\href", .link), ("\\sqrt", .squareRoot), ("\\root", .root),
  ("\\genfrac", .generalFraction), ("\\sideset", .sideScripts), ("\\skew", .skew)]

def commands : List (String × Shape) :=
  oneNode.map (·, nodes 1) ++ twoNodes.map (·, nodes 2) ++ spaces.map (·, space) ++
    rawTexts.map (·, rawText) ++ tables.map (·, table) ++
    infixFractions.map (fun (name, fraction) => (name, infixFraction fraction)) ++ single

def of? (command : String) : Option Shape := commands.lookup command

end Shape

end FormulaMarkup
