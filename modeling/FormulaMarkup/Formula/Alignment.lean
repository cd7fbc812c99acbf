import FormulaMarkup.Formula.Node

/-!
Alignments: the columns of a table environment, given at the start of its body. A letter stands for
a column and a bar for a rule between two of them.
-/
namespace FormulaMarkup.Alignment

def letters : List Char := ['l', 'c', 'r', '|']

def isValid (text : String) : Bool := !text.isEmpty && text.toList.all letters.contains

/-- The environments that do not work without an alignment. -/
def required : List String := ["array", "subarray"]

/-- Splits the body of an environment into its alignment and its cells. Behind a starred name the
alignment may stand in brackets, else it stands in braces; braces that hold no alignment are a part
of the first cell, except where an alignment is required. Fails with the text that is not valid. -/
def take (name : String) (body : List Node) : Except String (Option String × List Node) :=
  if name.toList.getLast? == some '*' && body.head?.any (·.is "[") then
    match body.findIdx? (·.is "]") with
    | none => .error "["
    | some close =>
      let text := Node.tokensOf ((body.take close).drop 1)
      if isValid text then .ok (some text, body.drop (close + 1)) else .error text
  else
    let text := match body.head? with
      | some node => if node.is Word.braces then Node.tokensOf node.childList else ""
      | none => ""
    if isValid text then .ok (some text, body.drop 1)
    else if required.contains name then .error text
    else .ok (none, body)

end FormulaMarkup.Alignment
