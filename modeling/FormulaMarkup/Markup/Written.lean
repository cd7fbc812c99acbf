import FormulaMarkup.Markup.Element
import FormulaMarkup.Markup.Escape

/-!
The written form of an element. A width of zero gives compact output; any other width puts every
child on a line of its own, indented by that many spaces for each level of nesting. The text of an
element always follows its start tag directly, and an element without children stays on one line.
-/
namespace FormulaMarkup

/-- What stands between two tags on different lines: nothing when the width is zero. -/
def lineBreak (width level : Nat) : List Char :=
  if width = 0 then [] else '\n' :: List.replicate (level * width) ' '

/-- The attributes of a start tag, each behind a space. -/
def writtenAttributes (attributes : Attributes) : List Char :=
  attributes.flatMap fun entry =>
    ' ' :: entry.1.toList ++ "=\"".toList ++ Escape.attributeValue entry.2 ++ ['"']

mutual

/-- The written form of an element that stands at the given level of nesting. -/
def Element.writtenAt (width level : Nat) : Element → List Char
  | ⟨tag, attributes, text, children⟩ =>
    '<' :: tag.toList ++ writtenAttributes attributes ++ ['>'] ++ Escape.content text ++
      writtenChildren width level children ++
      "</".toList ++ tag.toList ++ ['>']

/-- The children of an element at the given level, and the line break that follows the last one. -/
def writtenChildren (width level : Nat) : List Element → List Char
  | [] => []
  | [child] => lineBreak width (level + 1) ++ child.writtenAt width (level + 1) ++ lineBreak width level
  | child :: rest =>
    lineBreak width (level + 1) ++ child.writtenAt width (level + 1) ++ writtenChildren width level rest

end

/-- The written form of an element that stands by itself. -/
def Element.written (e : Element) (width : Nat) : String := String.ofList (e.writtenAt width 0)

end FormulaMarkup
