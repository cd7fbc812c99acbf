/-!
Escaping. In element content `&`, `<` and `>` are written as entities; in a double-quoted attribute
value `&` and `"` are, and angle brackets stay as they are.
-/
namespace FormulaMarkup.Escape

def contentChar : Char → List Char
  | '&' => "&amp;".toList
  | '<' => "&lt;".toList
  | '>' => "&gt;".toList
  | c => [c]

def attributeChar : Char → List Char
  | '&' => "&amp;".toList
  | '"' => "&quot;".toList
  | c => [c]

def content (s : String) : List Char := s.toList.flatMap contentChar

def attributeValue (s : String) : List Char := s.toList.flatMap attributeChar

end FormulaMarkup.Escape
