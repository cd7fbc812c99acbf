import FormulaMarkup.Source.Token

/-!
Places in a source for a reader: the line and the column of a byte, both counted from 1. A column is
a code point. A line keeps its line end, and there is no empty line behind the last line end, so that
the end of the source is always a column of its last line.
-/
namespace FormulaMarkup

structure Place where
  line : Nat
  column : Nat
  deriving Repr, DecidableEq

namespace Place

def endsLine (c : Char) : Bool :=
  ['\n', '\r', '\x0b', '\x0c', '\u0085', '\u2028', '\u2029'].contains c

/-- The lines of a source with their line ends. -/
def linesOf : List Char → List (List Char)
  | [] => []
  | '\r' :: '\n' :: rest => ['\r', '\n'] :: linesOf rest
  | c :: rest =>
    if endsLine c then [c] :: linesOf rest
    else
      match linesOf rest with
      | [] => [[c]]
      | line :: further => (c :: line) :: further

def pointsBefore : List Char → Nat → Nat
  | [], _ => 0
  | c :: cs, byte => if byte = 0 then 0 else pointsBefore cs (byte - c.utf8Size) + 1

/-- The place of a byte, counted from the start of a list of lines of which the first has a given
number. -/
def among (number : Nat) : List (List Char) → Nat → Place
  | [], _ => ⟨number, 1⟩
  | [line], byte => ⟨number, pointsBefore line byte + 1⟩
  | line :: rest, byte =>
    let length := Source.byteLength line
    if byte < length then ⟨number, pointsBefore line byte + 1⟩
    else among (number + 1) rest (byte - length)

def ofByte (source : String) (byte : Nat) : Place := among 1 (linesOf source.toList) byte

def written (place : Place) : String := toString place.line ++ ":" ++ toString place.column

end Place

end FormulaMarkup
