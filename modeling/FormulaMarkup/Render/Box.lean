/-!
Boxes: text that holds formulas between dollar signs. A dollar sign behind a backslash does not
count: in text it stands for itself, and in a formula both characters are kept.
-/
namespace FormulaMarkup.Box

/-- What a part of the text of a box is. -/
inductive Mode where
  | text | math
  deriving Repr, DecidableEq

def Mode.other : Mode → Mode
  | .text => .math
  | .math => .text

/-- A part that may be empty, given with its characters in reverse. -/
def part (mode : Mode) (reversed : List Char) : List (Mode × String) :=
  if reversed.isEmpty then [] else [(mode, String.ofList reversed.reverse)]

/-- The parts of a text, given the mode and the characters of the part that is being read. -/
def partsFrom (mode : Mode) (reversed : List Char) : List Char → List (Mode × String)
  | [] => part mode reversed
  | '\\' :: '$' :: rest =>
    partsFrom mode ('$' :: if mode = .math then '\\' :: reversed else reversed) rest
  | '$' :: rest => part mode reversed ++ partsFrom mode.other [] rest
  | c :: rest => partsFrom mode (c :: reversed) rest

/-- The parts of the text of a box, none of them empty. -/
def parts (text : String) : List (Mode × String) := partsFrom .text [] text.toList

end FormulaMarkup.Box
