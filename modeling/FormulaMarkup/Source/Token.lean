import FormulaMarkup.Source.Lexeme

/-!
Tokens with their places. A source is read line by line: no token goes over a line end, and reading a
line does not depend on the other lines. A place is a count of bytes in the UTF-8 form of the
source.
-/
namespace FormulaMarkup

/-- The stretch of source from one byte up to another. -/
structure Span where
  start : Nat
  stop : Nat
  deriving Repr, DecidableEq, Inhabited

/-- The text of a token with the place of its source. -/
structure Token where
  text : String
  span : Span
  deriving Repr, DecidableEq, Inhabited

namespace Source

/-- The segments of a line, or of the rest of one when lexemes stand before it. -/
def lineSegments (symbols : SymbolTable) (first : Bool) : List Char → List Segment
  | [] => []
  | c :: cs =>
    if Scan.isBlank c then Segment.gap [c] :: lineSegments symbols first cs
    else
      let reading := Lexeme.read symbols first c cs
      reading.segments ++ lineSegments symbols false reading.rest
termination_by line => line.length
decreasing_by
  · simp
  · exact (Lexeme.of_read symbols first c cs).2

/-- The segments of a source: those of its lines, and the line feeds between them. -/
def segments (symbols : SymbolTable) (source : List Char) : List Segment :=
  [Segment.gap ['\n']].intercalate ((source.splitOn '\n').map (lineSegments symbols true))

/-- The number of bytes in the UTF-8 form of a text. -/
def byteLength (cs : List Char) : Nat := cs.foldl (fun bytes c => bytes + c.utf8Size) 0

/-- The tokens of a list of segments that starts at a given place. -/
def tokensFrom (place : Nat) : List Segment → List Token
  | [] => []
  | segment :: rest =>
    let stop := place + byteLength segment.source
    match segment.text with
    | none => tokensFrom stop rest
    | some text => ⟨String.ofList text, ⟨place, stop⟩⟩ :: tokensFrom stop rest

def tokens (symbols : SymbolTable) (source : String) : List Token :=
  tokensFrom 0 (segments symbols source.toList)

end Source

end FormulaMarkup
