/-!
Fonts. A font gives a variant to each kind of glyph, or leaves the kind as it is. Some commands set
the font of their argument, others the font of all that follows in their group.
-/
namespace FormulaMarkup

/-- The kinds of glyph that a font tells apart. -/
inductive GlyphKind where
  | identifier | number | operator | fence | text
  deriving Repr, DecidableEq

/-- A font: the variant of all kinds but the exceptions. -/
structure Font where
  standard : Option String
  exceptions : List (GlyphKind × Option String) := []
  deriving Repr, DecidableEq

namespace Font

def plain : Font := ⟨none, []⟩

def variant? (font : Font) (kind : GlyphKind) : Option String :=
  (font.exceptions.lookup kind).getD font.standard

def unfenced (variant : String) : Font := ⟨some variant, [(.fence, none)]⟩

def identifiers (variant : String) : Font := ⟨none, [(.identifier, some variant)]⟩

/-- The commands that set the font of their argument. -/
def ofArgument : List (String × Font) := [
  ("\\Bbb", unfenced "double-struck"),
  ("\\boldsymbol", ⟨some "bold", [(.identifier, some "bold-italic"), (.text, none)]⟩),
  ("\\mathbb", unfenced "double-struck"),
  ("\\mathbf", unfenced "bold"),
  ("\\mathcal", unfenced "script"),
  ("\\mathfrak", unfenced "fraktur"),
  ("\\mathit", unfenced "italic"),
  ("\\mathrm", identifiers "normal"),
  ("\\mathscr", unfenced "script"),
  ("\\mathsf", identifiers "sans-serif"),
  ("\\mathtt", unfenced "monospace"),
  ("\\mit", ⟨some "italic", [(.fence, none), (.identifier, none)]⟩),
  ("\\oldstyle", unfenced "normal"),
  ("\\scr", unfenced "script"),
  ("\\tt", unfenced "monospace")]

/-- The commands that set the font of all that follows. -/
def ofRest : List (String × Font) := [
  ("\\rm", identifiers "normal"),
  ("\\bf", identifiers "bold"),
  ("\\it", identifiers "italic"),
  ("\\sf", identifiers "sans-serif"),
  ("\\tt", identifiers "monospace"),
  ("\\cal", unfenced "script"),
  ("\\frak", unfenced "fraktur")]

end Font

end FormulaMarkup
